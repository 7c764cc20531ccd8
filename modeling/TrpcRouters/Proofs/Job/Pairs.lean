import TrpcRouters.Proofs.FileTree.Abreast
import TrpcRouters.Proofs.Job

/-! Two jobs side by side, each in a world of its own: a rule for each way to put jobs together, and what
writing one file does in two trees that show the same on its way. -/

namespace TrpcRouters
open FileTree

namespace Job
variable {α β : Type}

/-- From related worlds, both jobs end well with the same value in related worlds, or both fail, or only
the first one fails, in a way that is excused. -/
structure Pairs (before : World → World → Prop) (first second : Job α)
    (after : α → World → World → Prop) (excused : Failure → Prop) : Prop where
  run (world world' : World) (start : before world world') :
    match first world, second world' with
    | .ok value world, .ok value' world' => value = value' ∧ after value world world'
    | .ok _ _, .error _ _ => False
    | .error failure _, .ok _ _ => excused failure
    | .error _ _, .error _ _ => True

def OnTrees (related : FileTree → FileTree → Prop) (world world' : World) : Prop :=
  related world.tree world'.tree

namespace Pairs
variable {before : World → World → Prop} {first second : Job α} {after : α → World → World → Prop}
  {excused : Failure → Prop}

theorem pure {value : α} (held : ∀ world world', before world world' → after value world world') :
    Pairs before (Pure.pure value) (Pure.pure value) after excused :=
  ⟨fun world world' start => ⟨rfl, held world world' start⟩⟩

theorem bind {next next' : α → Job β} (middle : α → World → World → Prop)
    {after : β → World → World → Prop} (early : Pairs before first second middle excused)
    (late : ∀ value, Pairs (middle value) (next value) (next' value) after excused) :
    Pairs before (first >>= next) (second >>= next') after excused := by
  constructor
  intro world world' start
  have ended := early.run world world' start
  rw [bind_eq, bind_eq]
  cases result : first world with
  | ok value reached =>
    cases result' : second world' with
    | ok value' reached' =>
      rw [result, result'] at ended
      obtain ⟨rfl, held⟩ := ended
      exact (late value).run reached reached' held
    | error failure' reached' =>
      rw [result, result'] at ended
      exact ended.elim
  | error failure reached =>
    cases result' : second world' with
    | ok value' reached' =>
      rw [result, result'] at ended
      dsimp only
      cases next' value' reached' with
      | ok _ _ => exact ended
      | error _ _ => trivial
    | error failure' reached' => trivial

theorem assume {fact : Prop} (given : fact → Pairs before first second after excused) :
    Pairs (fun world world' => before world world' ∧ fact) first second after excused :=
  ⟨fun world world' start => (given start.2).run world world' start.1⟩

theorem report {related : FileTree → FileTree → Prop} {event event' : Event} :
    Pairs (OnTrees related) (Job.report event) (Job.report event') (fun _ => OnTrees related) excused :=
  ⟨fun _ _ start => ⟨rfl, start⟩⟩

theorem forM {γ : Type} {elements : List γ} {body body' : γ → Job Unit}
    (step : ∀ element ∈ elements, Pairs before (body element) (body' element) (fun _ => before) excused) :
    Pairs before (elements.forM body) (elements.forM body') (fun _ => before) excused := by
  induction elements with
  | nil => exact pure fun _ _ start => start
  | cons element rest ih =>
    rw [List.forM, List.forM]
    apply bind _ (step element (List.mem_cons_self ..))
    intro _
    exact ih fun other member => step other (List.mem_cons_of_mem _ member)

/-- A job beside one that ends well: its own failures are excused. -/
theorem aside {first second : Job Unit} {before after : World → World → Prop}
    (meets : ∀ world', Meets (fun world => before world world') first
      (fun _ world => after world world') (fun failure _ => excused failure))
    (quiet : ∀ world', ∃ later, second world' = .ok () later ∧
      ∀ world, after world world' → after world later) :
    Pairs before first second (fun _ => after) excused := by
  constructor
  intro world world' start
  have ended := (meets world').run world start
  obtain ⟨later, result', kept⟩ := quiet world'
  cases result : first world with
  | ok value reached =>
    rw [result] at ended
    rw [result']
    exact ⟨rfl, kept reached ended⟩
  | error failure reached =>
    rw [result] at ended
    rw [result']
    exact ended

end Pairs

theorem write_eq (path : Path) (content : String) (world : World) :
    Job.write path content world =
      match world.tree.write path (Text.encode content) with
      | .ok tree => .ok () { world with tree }
      | .error error => .error (.emission path error) world := by
  rw [Job.write, bind_eq, show (get : Job World) world = .ok world world from rfl]
  dsimp only
  cases world.tree.write path (Text.encode content) <;> rfl

theorem emit_alike {world world' : World} {root path : Path} {place : Place} {rest : List RawString}
    (sound : world.tree.Sound) (sound' : world'.tree.Sound)
    (abreast : Abreast world.tree world'.tree root.names place rest) (below : root.Below path rest)
    (content : String) :
    (∃ failure later later', emit path content world = .error failure later ∧
      emit path content world' = .error failure later') ∨
    ∃ after after', emit path content world = .ok () after ∧ emit path content world' = .ok () after' ∧
      Together (OnWay place rest) world.tree world'.tree after.tree after'.tree := by
  obtain ⟨above, up, tidy, spelled⟩ := below.parent
  have plain := plain_of_named below.named
  obtain ⟨front, last, shape⟩ := (List.eq_nil_or_concat rest).resolve_left below.some_
  rw [List.concat_eq_append] at shape
  subst shape
  rw [List.dropLast_concat] at spelled
  obtain ⟨middle, middle', failed, makes, makes', together⟩ :=
    abreast.shorter.makeDirectories (fun step member => plain step (List.mem_append_left _ member)) tidy
      spelled sound sound'
  have within : Together (OnWay place (front ++ [last])) world.tree world'.tree middle middle' := by
    refine together.mono ?_
    rintro there ⟨inner, some_, short, same⟩
    exact ⟨inner, some_, short.trans (List.prefix_append _ _), same⟩
  have later := abreast.moved (makeDirectories_grows sound makes).1 (makeDirectories_grows sound' makes').1
    within
  simp only [emit_eq, up, bind_eq, makeDirectories_eq, makes, makes']
  cases failed with
  | some reason => exact Or.inl ⟨_, _, _, rfl, rfl⟩
  | none =>
    simp only
    rcases later.write plain below.some_ below.tidy below.ends below.names (Text.encode content) with
      ⟨error, refused, refused'⟩ | ⟨after, after', written, written', late⟩
    · rw [write_eq, write_eq, refused, refused']
      exact Or.inl ⟨_, _, _, rfl, rfl⟩
    · rw [write_eq, write_eq, written, written']
      exact Or.inr ⟨_, _, rfl, rfl, within.trans late⟩

end Job

end TrpcRouters
