import TrpcRouters.Text.Split
import TrpcRouters.Text.Utf8

/-! Encoding and decoding undo each other, also where decoding replaces what it cannot read: a text has
nothing to replace. A byte below 0x80 stands in an encoded text for its own character alone, so cutting a
text at such a character and cutting its bytes give the same pieces. -/

namespace TrpcRouters.Text

theorem decode?_encode (text : String) : decode? (encode text) = some text := by
  have bytes : (⟨(encode text).toArray⟩ : ByteArray) = text.toByteArray := by
    simp [encode]
  rw [decode?, bytes, String.fromUTF8?, dif_pos text.isValidUTF8]
  rfl

theorem encode_of_decode? {bytes : Bytes} {text : String} (decoded : decode? bytes = some text) :
    encode text = bytes := by
  unfold decode? String.fromUTF8? at decoded
  split at decoded
  next valid =>
    cases decoded
    rfl
  next => cases decoded

theorem encode_eq (text : String) : encode text = text.toList.flatMap String.utf8EncodeChar := by
  have bytes : text.toByteArray = text.toList.utf8Encode := by simp
  rw [encode, bytes, List.utf8Encode]
  simp

section Numbers
variable {n least greatest bits value : Nat}

theorem decodeFrom_going (missing : Nat) (small : n < 256) (low : least ≤ n) (high : n ≤ greatest)
    (reads : 64 * bits + (n - 0x80) = value) (rest : Bytes) :
    decodeFrom (some ⟨missing + 2, least, greatest, bits⟩) (UInt8.ofNat n :: rest) =
      decodeFrom (some ⟨missing + 1, 0x80, 0xbf, value⟩) rest := by
  have byte := UInt8.toNat_ofNat_of_lt' small
  simp [decodeFrom, step, byte, low, high, ← reads]

theorem decodeFrom_last (small : n < 256) (low : least ≤ n) (high : n ≤ greatest)
    (reads : 64 * bits + (n - 0x80) = value) (rest : Bytes) :
    decodeFrom (some ⟨1, least, greatest, bits⟩) (UInt8.ofNat n :: rest) =
      Char.ofNat value :: decodeFrom none rest := by
  have byte := UInt8.toNat_ofNat_of_lt' small
  simp [decodeFrom, step, byte, low, high, ← reads]

theorem decodeFrom_longer {pending : Pending} (small : n < 256) (opens : opening n = .longer pending)
    (rest : Bytes) : decodeFrom none (UInt8.ofNat n :: rest) = decodeFrom (some pending) rest := by
  have byte := UInt8.toNat_ofNat_of_lt' small
  simp [decodeFrom, step, open_, byte, opens]

theorem opening_two (low : 0xc2 ≤ n) (high : n < 0xe0) :
    opening n = .longer ⟨1, 0x80, 0xbf, n - 0xc0⟩ := by
  rw [opening, if_neg (by omega), if_neg (by omega), if_pos (by omega)]

/-- The second of three bytes is not free: what it may be shuts out short numbers and surrogates. -/
theorem opening_three {v : Nat} (low : 0x800 ≤ v) (high : v < 0x10000)
    (plain : v < 0xd800 ∨ 0xdfff < v) : ∃ least greatest, least ≤ v / 64 % 64 + 128 ∧
      v / 64 % 64 + 128 ≤ greatest ∧
      opening (v / 4096 % 16 + 224) = .longer ⟨2, least, greatest, v / 4096⟩ := by
  rw [opening, if_neg (by omega), if_neg (by omega), if_neg (by omega)]
  split
  next => exact ⟨0xa0, 0xbf, by omega, by omega, by rw [show v / 4096 = 0 by omega]⟩
  next =>
  split
  next => exact ⟨0x80, 0x9f, by omega, by omega, by rw [show v / 4096 = 0xd by omega]⟩
  next =>
    rw [if_pos (by omega), show v / 4096 % 16 + 224 - 0xe0 = v / 4096 by omega]
    exact ⟨0x80, 0xbf, by omega, by omega, rfl⟩

theorem opening_four {v : Nat} (low : 0x10000 ≤ v) (high : v < 0x110000) : ∃ least greatest,
    least ≤ v / 4096 % 64 + 128 ∧ v / 4096 % 64 + 128 ≤ greatest ∧
      opening (v / 262144 % 8 + 240) = .longer ⟨3, least, greatest, v / 262144⟩ := by
  rw [opening, if_neg (by omega), if_neg (by omega), if_neg (by omega), if_neg (by omega),
    if_neg (by omega), if_neg (by omega)]
  split
  next => exact ⟨0x90, 0xbf, by omega, by omega, by rw [show v / 262144 = 0 by omega]⟩
  next =>
  split
  next =>
    rw [show v / 262144 % 8 + 240 - 0xf0 = v / 262144 by omega]
    exact ⟨0x80, 0xbf, by omega, by omega, rfl⟩
  next =>
    rw [if_pos (by omega), show v / 262144 = 4 by omega]
    exact ⟨0x80, 0x8f, by omega, by omega, rfl⟩

end Numbers

theorem decodeFrom_encodeChar (c : Char) (rest : Bytes) :
    decodeFrom none (String.utf8EncodeChar c ++ rest) = c :: decodeFrom none rest := by
  have back : Char.ofNat c.val.toNat = c := Char.ofNat_toNat c
  have valid : c.val.toNat < 0xd800 ∨ 0xdfff < c.val.toNat ∧ c.val.toNat < 0x110000 := c.valid
  unfold String.utf8EncodeChar
  generalize c.val.toNat = v at back valid
  dsimp only
  split
  next one =>
    have byte := UInt8.toNat_ofNat_of_lt' (show v < 256 by omega)
    have opens : opening v = .single (Char.ofNat v) := if_pos (by omega)
    simp [decodeFrom, step, open_, byte, opens, back]
  next =>
  split
  next two =>
    rw [List.cons_append, decodeFrom_longer (by omega) (opening_two (by omega) (by omega)),
      List.cons_append, decodeFrom_last (by omega) (by omega) (by omega)
        (show _ = v by omega), back, List.nil_append]
  next =>
  split
  next three =>
    obtain ⟨least, greatest, low, high, opens⟩ := opening_three (v := v) (by omega) (by omega) (by omega)
    rw [List.cons_append, decodeFrom_longer (by omega) opens, List.cons_append,
      decodeFrom_going 0 (by omega) low high (show _ = v / 64 by omega), List.cons_append,
      decodeFrom_last (by omega) (by omega) (by omega) (show _ = v by omega), back, List.nil_append]
  next =>
    obtain ⟨least, greatest, low, high, opens⟩ := opening_four (v := v) (by omega) (by omega)
    rw [List.cons_append, decodeFrom_longer (by omega) opens, List.cons_append,
      decodeFrom_going 1 (by omega) low high (show _ = v / 4096 by omega), List.cons_append,
      decodeFrom_going 0 (by omega) (by omega) (by omega) (show _ = v / 64 by omega),
      List.cons_append, decodeFrom_last (by omega) (by omega) (by omega) (show _ = v by omega), back,
      List.nil_append]

theorem decodeLossy_encode (text : String) : decodeLossy (encode text) = text := by
  have letters (cs : List Char) : decodeFrom none (cs.flatMap String.utf8EncodeChar) = cs := by
    induction cs with
    | nil => rfl
    | cons c rest ih => rw [List.flatMap_cons, decodeFrom_encodeChar, ih]
  rw [decodeLossy, encode_eq, letters, String.ofList_toList]

theorem encode_append (first second : String) : encode (first ++ second) = encode first ++ encode second := by
  simp only [encode_eq, String.toList_append, List.flatMap_append]

theorem encode_inj {first second : String} (same : encode first = encode second) : first = second := by
  rw [← decodeLossy_encode first, same, decodeLossy_encode]

section Ascii
variable {s c : Char}

theorem encodeChar_ascii (ascii : s.toNat < 0x80) :
    String.utf8EncodeChar s = [UInt8.ofNat s.toNat] := by
  have small : s.val.toNat ≤ 127 := Nat.le_of_lt_succ ascii
  simp only [String.utf8EncodeChar, small, ↓reduceIte]
  rfl

/-- A character that takes more than one byte has no small one among them. -/
theorem le_of_mem_encodeChar (wide : 0x80 ≤ c.toNat) {byte : UInt8}
    (member : byte ∈ String.utf8EncodeChar c) : 0x80 ≤ byte.toNat := by
  have large {n : Nat} (low : 0x80 ≤ n) (small : n < 256) : 0x80 ≤ (UInt8.ofNat n).toNat := by
    rwa [UInt8.toNat_ofNat_of_lt' small]
  have more : ¬c.val.toNat ≤ 127 := Nat.not_le.mpr wide
  simp only [String.utf8EncodeChar, if_neg more] at member
  split at member
  · simp only [List.mem_cons, List.not_mem_nil, or_false] at member
    obtain rfl | rfl := member <;> exact large (by omega) (by omega)
  · split at member
    · simp only [List.mem_cons, List.not_mem_nil, or_false] at member
      obtain rfl | rfl | rfl := member <;> exact large (by omega) (by omega)
    · simp only [List.mem_cons, List.not_mem_nil, or_false] at member
      obtain rfl | rfl | rfl | rfl := member <;> exact large (by omega) (by omega)

theorem mem_encodeChar_iff (ascii : s.toNat < 0x80) :
    UInt8.ofNat s.toNat ∈ String.utf8EncodeChar c ↔ c = s := by
  have byte := UInt8.toNat_ofNat_of_lt' (show s.toNat < 256 by omega)
  constructor
  · intro member
    by_cases wide : 0x80 ≤ c.toNat
    · have large := le_of_mem_encodeChar wide member
      omega
    · rw [encodeChar_ascii (Nat.lt_of_not_le wide), List.mem_singleton] at member
      have equal := congrArg UInt8.toNat member
      rw [byte, UInt8.toNat_ofNat_of_lt' (show c.toNat < 256 by omega)] at equal
      exact Char.toNat_inj.mp equal.symm
  · rintro rfl
    simp [encodeChar_ascii ascii]

theorem mem_encode_iff (ascii : s.toNat < 0x80) {text : String} :
    UInt8.ofNat s.toNat ∈ encode text ↔ s ∈ text.toList := by
  rw [encode_eq, List.mem_flatMap]
  constructor
  · rintro ⟨c, inside, member⟩
    exact (mem_encodeChar_iff ascii).mp member ▸ inside
  · intro inside
    exact ⟨s, inside, (mem_encodeChar_iff ascii).mpr rfl⟩

theorem cut_encode (ascii : s.toNat < 0x80) (text : List Char) :
    cut (UInt8.ofNat s.toNat) (text.flatMap String.utf8EncodeChar) =
      (cut s text).map (·.flatMap String.utf8EncodeChar) := by
  have whole {front rest : Bytes} (plain : UInt8.ofNat s.toNat ∉ front) :
      cut (UInt8.ofNat s.toNat) (front ++ rest) =
        (cut (UInt8.ofNat s.toNat) rest).modifyHead (front ++ ·) := by
    induction front with
    | nil => cases pieces : cut (UInt8.ofNat s.toNat) rest <;> simp [pieces]
    | cons byte front ih =>
      rw [List.mem_cons, not_or] at plain
      rw [List.cons_append, cut, if_neg (Ne.symm plain.1), ih plain.2]
      cases pieces : cut (UInt8.ofNat s.toNat) rest with
      | nil => exact absurd pieces (cut_ne_nil _ _)
      | cons piece others => rfl
  induction text with
  | nil => rfl
  | cons c rest ih =>
    by_cases same : c = s
    · rw [List.flatMap_cons, same, encodeChar_ascii ascii, List.singleton_append, cut, if_pos rfl, ih, cut,
        if_pos rfl]
      rfl
    · have plain := mt (mem_encodeChar_iff (c := c) ascii).mp same
      rw [List.flatMap_cons, whole plain, ih, cut, if_neg same]
      cases pieces : cut s rest with
      | nil => exact absurd pieces (cut_ne_nil _ _)
      | cons piece others => rfl

end Ascii

section Small
variable {s : Char}

/-- What has been read of a character puts it beyond the small ones, and no small one goes on with it. -/
def Pending.Wide (pending : Pending) : Prop :=
  (pending.missing = 1 → 2 ≤ pending.bits) ∧ (0 < pending.bits ∨ 0x90 ≤ pending.least) ∧
    0x80 ≤ pending.least

/-- A character of one byte that stands for no error. -/
def IsSmall (s : Char) : Prop :=
  0 < s.toNat ∧ s.toNat < 0x80

instance (s : Char) : Decidable (IsSmall s) :=
  inferInstanceAs (Decidable (_ ∧ _))

theorem IsSmall.ofNat_ne (small : IsSmall s) {n : Nat} (wide : 0x80 ≤ n) : Char.ofNat n ≠ s := by
  rintro rfl
  by_cases valid : n.isValidChar
  · have back : (Char.ofNat n).toNat = n := by
      rw [Char.ofNat, dif_pos valid]
      rfl
    have bound := small.2
    omega
  · have none_ : (Char.ofNat n).toNat = 0 := by
      rw [Char.ofNat, dif_neg valid]
      rfl
    have bound := small.1
    omega

theorem IsSmall.replacement_ne (small : IsSmall s) : replacement ≠ s :=
  small.ofNat_ne (by decide)

theorem eq_of_opening_single {n : Nat} (opens : opening n = .single s) : n = s.toNat := by
  by_cases small : n < 0x80
  · rw [opening, if_pos small] at opens
    cases opens
    rw [Char.ofNat, dif_pos (Or.inl (by omega))]
    rfl
  · rw [opening, if_neg small] at opens
    repeat' split at opens
    all_goals cases opens

theorem wide_of_opening {n : Nat} {pending : Pending} (opens : opening n = .longer pending) :
    pending.Wide := by
  unfold opening at opens
  repeat' split at opens
  all_goals cases opens
  all_goals exact ⟨by simp only; omega, by simp only; omega, by simp only; omega⟩

theorem eq_of_mem_open (small : IsSmall s) {byte : UInt8} (member : s ∈ (open_ byte).1) :
    byte = UInt8.ofNat s.toNat := by
  unfold open_ at member
  cases opens : opening byte.toNat with
  | single c =>
    rw [opens] at member
    cases List.mem_singleton.mp member
    rw [← eq_of_opening_single opens, UInt8.ofNat_toNat]
  | longer pending =>
    rw [opens] at member
    cases member
  | invalid =>
    rw [opens] at member
    exact absurd (List.mem_singleton.mp member).symm small.replacement_ne

theorem wide_of_open {byte : UInt8} {pending : Pending} (left : (open_ byte).2 = some pending) :
    pending.Wide := by
  unfold open_ at left
  cases opens : opening byte.toNat with
  | single c => simp [opens] at left
  | longer other =>
    rw [opens] at left
    cases left
    exact wide_of_opening opens
  | invalid => simp [opens] at left

theorem eq_of_mem_step (small : IsSmall s) {state : Option Pending}
    (wide : ∀ pending ∈ state, pending.Wide) {byte : UInt8} (member : s ∈ (step state byte).1) :
    byte = UInt8.ofNat s.toNat := by
  cases state with
  | none => exact eq_of_mem_open small member
  | some pending =>
    obtain ⟨one, more⟩ := wide pending rfl
    rw [step] at member
    split at member
    next within =>
      dsimp only at member
      split at member
      next last =>
        have ends := one last
        exact absurd (List.mem_singleton.mp member).symm (small.ofNat_ne (by omega))
      next => cases member
    next =>
      change s ∈ replacement :: (open_ byte).1 at member
      rcases List.mem_cons.mp member with same | found
      · exact absurd same.symm small.replacement_ne
      · exact eq_of_mem_open small found

theorem wide_of_step {state : Option Pending} (wide : ∀ pending ∈ state, pending.Wide) (byte : UInt8) :
    ∀ pending ∈ (step state byte).2, pending.Wide := by
  intro next left
  cases state with
  | none => exact wide_of_open left
  | some pending =>
    obtain ⟨one, more⟩ := wide pending rfl
    rw [step] at left
    split at left
    next within =>
      dsimp only at left
      split at left
      next => cases left
      next =>
        cases left
        exact ⟨by simp only; omega, by simp only; omega, Nat.le_refl _⟩
    next => exact wide_of_open left

theorem decodeFrom_cons (state : Option Pending) (byte : UInt8) (rest : Bytes) :
    decodeFrom state (byte :: rest) = (step state byte).1 ++ decodeFrom (step state byte).2 rest := by
  cases state <;> rw [decodeFrom]

/-- A byte that is a character by itself ends what was begun before it. -/
theorem decodeFrom_append {state : Option Pending} (wide : ∀ pending ∈ state, pending.Wide) (bytes : Bytes)
    {byte : UInt8} (ascii : byte.toNat < 0x80) (rest : Bytes) :
    decodeFrom state (bytes ++ byte :: rest) = decodeFrom state bytes ++ decodeFrom none (byte :: rest) := by
  induction bytes generalizing state with
  | nil =>
    cases state with
    | none => rfl
    | some pending =>
      have apart : ¬(pending.least ≤ byte.toNat ∧ byte.toNat ≤ pending.greatest) := by
        have least := (wide pending rfl).2.2
        omega
      have opened : step (some pending) byte = (replacement :: (open_ byte).1, (open_ byte).2) := if_neg apart
      rw [List.nil_append, decodeFrom_cons, decodeFrom_cons, opened]
      rfl
  | cons first others ih =>
    rw [List.cons_append, decodeFrom_cons, decodeFrom_cons, ih (wide_of_step wide first), List.append_assoc]

/-- A small character is shown only where its byte stands. -/
theorem mem_of_mem_decodeFrom (small : IsSmall s) {state : Option Pending}
    (wide : ∀ pending ∈ state, pending.Wide) {bytes : Bytes} (member : s ∈ decodeFrom state bytes) :
    UInt8.ofNat s.toNat ∈ bytes := by
  induction bytes generalizing state with
  | nil =>
    cases state with
    | none => cases member
    | some pending => exact absurd (List.mem_singleton.mp member).symm small.replacement_ne
  | cons byte rest ih =>
    rw [decodeFrom_cons] at member
    rcases List.mem_append.mp member with found | later
    · exact eq_of_mem_step small wide found ▸ List.mem_cons_self ..
    · exact List.mem_cons_of_mem _ (ih (wide_of_step wide byte) later)

theorem step_some (state : Option Pending) (byte : UInt8) :
    (step state byte).1 ≠ [] ∨ (step state byte).2 ≠ none := by
  have opened : (open_ byte).1 ≠ [] ∨ (open_ byte).2 ≠ none := by
    unfold open_
    split <;> simp
  cases state with
  | none => exact opened
  | some pending =>
    rw [step]
    split
    · dsimp only
      split <;> simp
    · exact Or.inl (List.cons_ne_nil _ _)

theorem decodeFrom_ne_nil {state : Option Pending} {bytes : Bytes}
    (some_ : bytes ≠ [] ∨ state ≠ none) : decodeFrom state bytes ≠ [] := by
  induction bytes generalizing state with
  | nil =>
    cases state with
    | none => simp at some_
    | some pending => simp [decodeFrom]
  | cons byte rest ih =>
    rw [decodeFrom_cons]
    rcases step_some state byte with found | left
    · simp [found]
    · simp [ih (Or.inr left)]

theorem getLast?_decodeFrom (small : IsSmall s) {state : Option Pending}
    (wide : ∀ pending ∈ state, pending.Wide) {bytes : Bytes}
    (last : (decodeFrom state bytes).getLast? = some s) :
    bytes.getLast? = some (UInt8.ofNat s.toNat) := by
  induction bytes generalizing state with
  | nil =>
    cases state with
    | none => cases last
    | some pending => exact absurd (Option.some.inj last) small.replacement_ne
  | cons byte rest ih =>
    rw [decodeFrom_cons] at last
    by_cases more : rest ≠ [] ∨ (step state byte).2 ≠ none
    · obtain ⟨front, c, shape⟩ := List.eq_nil_or_concat _ |>.resolve_left (decodeFrom_ne_nil more)
      have found := ih (wide_of_step wide byte) (by simpa [shape] using last)
      rw [List.getLast?_cons, found]
      rfl
    · simp only [ne_eq, not_or, Classical.not_not] at more
      rw [more.1, more.2, decodeFrom, List.append_nil] at last
      rw [more.1, eq_of_mem_step small wide (List.mem_of_getLast? last), List.getLast?_singleton]

/-- A character that has been begun is none of the small ones, however it ends. -/
theorem exists_ne_of_pending (small : IsSmall s) {pending : Pending} (wide : pending.Wide) (bytes : Bytes) :
    ∃ c ∈ decodeFrom (some pending) bytes, c ≠ s := by
  induction bytes generalizing pending with
  | nil => exact ⟨replacement, by simp [decodeFrom], small.replacement_ne⟩
  | cons byte rest ih =>
    rw [decodeFrom_cons, step]
    split
    next within =>
      dsimp only
      split
      next last =>
        have ends := wide.1 last
        exact ⟨_, List.mem_append_left _ (List.mem_singleton_self _), small.ofNat_ne (by omega)⟩
      next =>
        obtain ⟨one, more⟩ := wide
        have later : Pending.Wide ⟨pending.missing - 1, 0x80, 0xbf, 64 * pending.bits + (byte.toNat - 0x80)⟩ :=
          ⟨by simp only; omega, by simp only; omega, Nat.le_refl _⟩
        obtain ⟨c, member, apart⟩ := ih later
        exact ⟨c, by simpa using member, apart⟩
    next => exact ⟨replacement, by simp, small.replacement_ne⟩

theorem encode_of_all_small (small : IsSmall s) {bytes : Bytes} (all : ∀ c ∈ decodeFrom none bytes, c = s) :
    (decodeFrom none bytes).flatMap String.utf8EncodeChar = bytes := by
  induction bytes with
  | nil => rfl
  | cons byte rest ih =>
    rw [decodeFrom_cons] at all ⊢
    change ∀ c ∈ (open_ byte).1 ++ decodeFrom (open_ byte).2 rest, c = s at all
    change ((open_ byte).1 ++ decodeFrom (open_ byte).2 rest).flatMap String.utf8EncodeChar = byte :: rest
    unfold open_ at all ⊢
    cases opens : opening byte.toNat with
    | single c =>
      simp only [opens] at all ⊢
      have same : c = s := all c (by simp)
      have code : byte = UInt8.ofNat c.toNat := by
        rw [← eq_of_opening_single opens, UInt8.ofNat_toNat]
      rw [List.singleton_append, List.flatMap_cons, ih fun c member => all c (by simp [member]),
        encodeChar_ascii (same ▸ small.2), ← code]
      rfl
    | longer pending =>
      simp only [opens] at all
      obtain ⟨c, member, apart⟩ := exists_ne_of_pending small (wide_of_opening opens) rest
      exact absurd (all c (by simpa using member)) apart
    | invalid =>
      simp only [opens] at all
      exact absurd (all _ (by simp)) small.replacement_ne

end Small

end TrpcRouters.Text
