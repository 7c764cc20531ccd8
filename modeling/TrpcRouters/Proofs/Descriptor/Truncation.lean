import Mathlib.Data.List.Forall2
import TrpcRouters.Proofs.Descriptor.Concatenation
import TrpcRouters.Proofs.Wire.Spelling
import TrpcRouters.Proofs.Wire.Truncation

/-! Descriptor sets that were cut off. A part of the bytes of a set that ends between two files is the set
of the files before the cut; every other part is refused, so that no file gives something of what was
left of it. The files may have all the fields that the schema knows. -/

namespace TrpcRouters.Descriptor
open Wire

def FileSet.frame (content : Bytes) : Bytes :=
  Key.write ⟨1, .lengthDelimited⟩ ++ counted content

/-- The bytes of a set, given the contents of its files. -/
def FileSet.framed (contents : List Bytes) : Bytes :=
  contents.flatMap frame

section Reading
variable {style : Style} {files : List Entries} {contents : List Bytes}

theorem FileSet.spelled_framed (spelled : List.Forall₂ (Spelled style .fileDescriptorProto) files contents) :
    Spelled style .fileDescriptorSet (messageEntries 1 files) (framed contents) := by
  induction spelled with
  | nil => exact .nil
  | cons first _ ih => exact .message rfl rfl first ih

theorem FileSet.decode_framed (spelled : List.Forall₂ (Spelled style .fileDescriptorProto) files contents)
    (room : ∀ file ∈ files, Entries.depth file + style.foreign.toNat ≤ 99)
    (short : (framed contents).length < 2 ^ 64) :
    FileSet.decode (framed contents) = .ok (files.map File.ofEntries) := by
  have spare : style.foreign.toNat ≤ 1 := by cases style.foreign <;> decide
  have levels : Entries.depth (messageEntries 1 files) ≤ maxDepth - style.foreign.toNat := by
    refine depth_messageEntries_le_iff.mpr fun file member => ?_
    have level := room file member
    rw [maxDepth]
    omega
  rw [maxDepth] at levels
  rw [FileSet.decode, (spelled_framed spelled).decode short (by rw [maxDepth]; omega)]
  simp [Except.map, ofEntries]

theorem FileSet.length_framed_cons (content : Bytes) (contents : List Bytes) :
    (framed (content :: contents)).length = (frame content).length + (framed contents).length := by
  rw [framed, List.flatMap_cons, List.length_append, framed]

theorem FileSet.decode_frame_append {file : Entries} {content : Bytes}
    (spelled : Spelled style .fileDescriptorProto file content)
    (room : Entries.depth file + style.foreign.toNat ≤ 99) (short : (frame content).length < 2 ^ 64)
    (behind : Bytes) :
    FileSet.decode (frame content ++ behind) =
      (FileSet.decode behind).map (File.ofEntries file :: ·) := by
  have alone : FileSet.decode (framed [content]) = .ok [File.ofEntries file] :=
    decode_framed (.cons spelled .nil) (List.forall_mem_singleton.mpr room)
      (by rw [framed, List.flatMap_singleton]; exact short)
  rw [framed, List.flatMap_singleton] at alone
  exact FileSet.decode_append alone behind

theorem FileSet.decode_frame_torn {content torn : Bytes} (short : (frame content).length < 2 ^ 64)
    (some_ : torn ≠ []) (cut : Torn torn (frame content)) :
    ∃ fault : Fault, fault.cause.IsCut ∧ FileSet.decode torn = .error fault := by
  have known : MessageType.fileDescriptorSet.field? 1 =
      some ⟨1, "file", .message .fileDescriptorProto, true⟩ := rfl
  have fits : content.length < 2 ^ 64 := by
    rw [frame, List.length_append] at short
    exact length_of_counted (by omega)
  obtain ⟨fault, isCut, refused⟩ := readEntry_torn known rfl fits 99 cut
  obtain ⟨fuel, length⟩ := Nat.exists_eq_succ_of_ne_zero (mt List.eq_nil_of_length_eq_zero some_)
  refine ⟨fault, isCut, ?_⟩
  rw [FileSet.decode, Wire.decode, length, maxDepth,
    repeatUntil_of_error (length ▸ Nat.succ_pos fuel) refused]
  rfl

/-- A part of a set has the files before the cut, or is refused. -/
theorem FileSet.decode_torn (spelled : List.Forall₂ (Spelled style .fileDescriptorProto) files contents)
    (room : ∀ file ∈ files, Entries.depth file + style.foreign.toNat ≤ 99)
    (short : (framed contents).length < 2 ^ 64) {torn : Bytes} (cut : Torn torn (framed contents)) :
    (∃ count < contents.length, torn = framed (contents.take count) ∧
      FileSet.decode torn = .ok ((files.take count).map File.ofEntries)) ∨
    ∃ fault : Fault, fault.cause.IsCut ∧ FileSet.decode torn = .error fault := by
  induction spelled generalizing torn with
  | nil => exact absurd cut.length_lt (by simp [framed])
  | @cons file content files contents first _ ih =>
    obtain ⟨level, room⟩ := List.forall_mem_cons.mp room
    rw [length_framed_cons] at short
    rw [framed, List.flatMap_cons] at cut
    rcases cut.append with inside | ⟨behind, rfl, later⟩
    · by_cases nothing : torn = []
      · exact Or.inl ⟨0, Nat.succ_pos _, nothing, by rw [nothing]; rfl⟩
      · exact Or.inr (decode_frame_torn (by omega) nothing inside)
    · rw [decode_frame_append first level (by omega)]
      rcases ih room (by omega) later with ⟨count, within, same, read⟩ | ⟨fault, isCut, refused⟩
      · refine Or.inl ⟨count + 1, Nat.succ_lt_succ within, ?_, by rw [read]; rfl⟩
        rw [same, List.take_succ_cons, framed, framed, List.flatMap_cons]
      · exact Or.inr ⟨fault, isCut, by rw [refused]; rfl⟩

theorem FileSet.length_framed_take_le (contents : List Bytes) (count : Nat) :
    (framed (contents.take count)).length ≤ (framed contents).length := by
  have whole := congrArg (fun contents => (framed contents).length) (List.take_append_drop count contents)
  simp only [framed, List.flatMap_append, List.length_append] at whole
  rw [framed, framed, ← whole]
  exact Nat.le_add_right _ _

end Reading

section Standard
variable (set : FileSet)

def FileSet.contents : List Bytes :=
  set.map fun file => file.toEntries.encode

theorem FileSet.framed_contents : framed set.contents = set.encode := by
  induction set with
  | nil => rfl
  | cons file set ih =>
    have first : framed (contents (file :: set)) = frame file.toEntries.encode ++ framed (contents set) := rfl
    rw [first, ih]
    rfl

theorem FileSet.spelled_contents (style : Style) :
    List.Forall₂ (Spelled style .fileDescriptorProto) (set.map File.toEntries) set.contents := by
  induction set with
  | nil => exact .nil
  | cons file set ih => exact .cons (.encode style file.fit_toEntries) ih

end Standard

end TrpcRouters.Descriptor

namespace TrpcRouters.Generation
open Descriptor

/-- From a part of the bytes of a set, the services are those of its first files, if it ends behind a file;
where it ends inside of one, the set is refused, in whatever field of the file that is. -/
theorem loadServices_torn {style : Wire.Style} {files : List Wire.Entries} {contents : List Bytes}
    (spelled : List.Forall₂ (Wire.Spelled style .fileDescriptorProto) files contents)
    (room : ∀ file ∈ files, file.depth + style.foreign.toNat ≤ 99)
    (short : (FileSet.framed contents).length < 2 ^ 63) {torn lost : Bytes}
    (whole : torn ++ lost = FileSet.framed contents) (some_ : lost ≠ []) {path : Path} {world : World}
    (held : world.tree.read path = .ok torn) (requested : List String) :
    (∃ count < contents.length, torn = FileSet.framed (contents.take count) ∧
      let kept : FileSet := (files.take count).map File.ofEntries
      loadServices path requested world = .ok (kept.services requested)
        { world with log := world.log ++ (kept.missing requested).map .missing }) ∨
    ((∀ count, torn ≠ FileSet.framed (contents.take count)) ∧
      ∃ fault : Wire.Fault, (fault.cause = .invalidVarint ∨ fault.cause = .underflow) ∧
        loadServices path requested world =
          .error (.descriptor ("Failed to decode " ++ path.text ++ ": " ++ fault.text)) world) := by
  have fits : (FileSet.framed contents).length < 2 ^ 64 := Nat.lt_trans short (by decide)
  have loaded := loadServices_eq path requested world
  rw [FileSet.load, held] at loaded
  rcases FileSet.decode_torn spelled room fits ⟨lost, some_, whole⟩ with
    ⟨count, within, same, read⟩ | ⟨fault, isCut, refused⟩
  · refine Or.inl ⟨count, within, same, ?_⟩
    rw [loaded]
    simp only [FileSet.ofBytes, read]
    rfl
  · refine Or.inr ⟨fun count same => ?_, fault, isCut, ?_⟩
    · have read := FileSet.decode_framed (List.forall₂_take count spelled)
        (fun file member => room file (List.mem_of_mem_take member))
        (Nat.lt_of_le_of_lt (FileSet.length_framed_take_le contents count) fits)
      rw [← same, refused] at read
      cases read
    · rw [loaded]
      simp only [FileSet.ofBytes, refused]
      rfl

def streetSet : FileSet :=
  [⟨some "shop.proto", some "shop", [.declare (some "Order") []],
      [⟨some "Shop", [⟨some "Buy", some ".shop.Order", some ".shop.Order", none, some true⟩]⟩]⟩,
    ⟨some "post.proto", none, [], [⟨some "Post", []⟩]⟩]

/-- Cut behind its first file, the set gives the service of this one; without its last byte, in the middle of
the other service, it gives nothing. -/
theorem streetSet_torn :
    loadServices ⟨"/set"⟩ ["post.proto", "shop.proto"] (heldWorld (streetSet.encode.take 72)) =
      .ok [⟨"Shop", "shop.Shop", "shop.proto",
          [⟨"Buy", ⟨"shop.Order", "Order", "shop.proto"⟩, ⟨"shop.Order", "Order", "shop.proto"⟩, false, true⟩]⟩]
        ⟨(heldWorld (streetSet.encode.take 72)).tree, [.missing "post.proto"]⟩ ∧
    ∃ reason, loadServices ⟨"/set"⟩ ["post.proto", "shop.proto"]
        (heldWorld (streetSet.encode.take 93)) =
      .error (.descriptor reason) (heldWorld (streetSet.encode.take 93)) := by
  have spelled := streetSet.spelled_contents ⟨false, false⟩
  have room : ∀ file ∈ streetSet.map File.toEntries,
      file.depth + (⟨false, false⟩ : Wire.Style).foreign.toNat ≤ 99 := by decide +kernel
  have short : (FileSet.framed streetSet.contents).length < 2 ^ 63 := by decide +kernel
  have whole (count : Nat) : streetSet.encode.take count ++ streetSet.encode.drop count =
      FileSet.framed streetSet.contents := by rw [List.take_append_drop, FileSet.framed_contents]
  have one : streetSet.encode.take 72 = FileSet.framed (streetSet.contents.take 1) := by decide +kernel
  have inside : ∀ count < 2, streetSet.encode.take 93 ≠ FileSet.framed (streetSet.contents.take count) := by
    decide +kernel
  constructor
  · rcases loadServices_torn spelled room short (whole 72) (by decide +kernel)
      (show (heldWorld (streetSet.encode.take 72)).tree.read ⟨"/set"⟩ = .ok (streetSet.encode.take 72) from rfl)
      ["post.proto", "shop.proto"] with ⟨count, within, same, loaded⟩ | ⟨apart, _⟩
    · have only : count = 1 := by
        have others : ∀ count < 2, streetSet.encode.take 72 = FileSet.framed (streetSet.contents.take count) →
            count = 1 := by decide +kernel
        exact others count within same
      subst only
      exact loaded
    · exact absurd one (apart 1)
  · rcases loadServices_torn spelled room short (whole 93) (by decide +kernel)
      (show (heldWorld (streetSet.encode.take 93)).tree.read ⟨"/set"⟩ = .ok (streetSet.encode.take 93) from rfl)
      ["post.proto", "shop.proto"] with ⟨count, within, same, _⟩ | ⟨_, fault, _, refused⟩
    · exact absurd same (inside count within)
    · exact ⟨_, refused⟩

end TrpcRouters.Generation
