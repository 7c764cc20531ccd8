import TrpcRouters.Proofs.FileTree.Abreast
import TrpcRouters.Proofs.FileTree.Stops
import TrpcRouters.Proofs.Generation.Placement

/-! Where a run makes its directories, seen from the initial tree. A scratch directory that is away from
there does not tell: with one scratch directory or another, the compiler's directory is made alike. -/

namespace TrpcRouters.Generation
open FileTree

theorem eq_of_suffixes {first second : RawString} {place there : Place} (below : first :: place <:+ there)
    (below' : second :: place <:+ there) : first = second := by
  have same := List.IsSuffix.eq_of_length (List.suffix_of_suffix_length_le below below' (by simp)) (by simp)
  exact (List.cons.inj same).1

/-- Outside the routers' directory, two trees show the same once their scratch directories are gone. -/
def Level (place opened opened' : Place) (first second : FileTree) : Prop :=
  ∀ there, ¬.ofText "trpc" :: place <:+ there →
    (first.remove opened).sight? there = (second.remove opened').sight? there

/-- A place that is not in the routers' directory nor in one of the scratch directories. -/
def Shared (place opened opened' there : Place) : Prop :=
  ¬.ofText "trpc" :: place <:+ there ∧ ¬opened <:+ there ∧ ¬opened' <:+ there

namespace Level
variable {place opened opened' : Place} {first second first' second' : FileTree}

theorem sight? (level : Level place opened opened' first second) (inside : opened ≠ [])
    (inside' : opened' ≠ []) {there : Place} (shared : Shared place opened opened' there) :
    first.sight? there = second.sight? there := by
  obtain ⟨other, apart, apart'⟩ := shared
  have same := level there other
  rwa [sight?_remove _ inside, sight?_remove _ inside', if_neg apart, if_neg apart'] at same

theorem moved (level : Level place opened opened' first second) (inside : opened ≠ [])
    (inside' : opened' ≠ []) {touched : Place → Prop}
    (together : Together touched first second first' second')
    (shared : ∀ there, touched there → Shared place opened opened' there) :
    Level place opened opened' first' second' := by
  intro there other
  have same := level there other
  rw [sight?_remove _ inside, sight?_remove _ inside'] at same ⊢
  rcases together there with ⟨kept, kept'⟩ | ⟨touches, shows⟩
  · rwa [sight?_congr kept, sight?_congr kept']
  · obtain ⟨_, apart, apart'⟩ := shared there touches
    rwa [if_neg apart, if_neg apart']

theorem routers (level : Level place opened opened' first second) (inside : opened ≠ [])
    (kept : ∀ there, ¬.ofText "trpc" :: place <:+ there → first'.node? there = first.node? there) :
    Level place opened opened' first' second := by
  intro there other
  rw [← level there other, sight?_remove _ inside, sight?_remove _ inside, sight?_congr (kept there other)]

end Level

/-- A scratch directory that is away from the output root, the compiler's directory and the marker. -/
structure Spare (place opened : Place) : Prop where
  inside : opened ≠ []
  connect : ¬opened <:+ .ofText "connect" :: place
  within : ¬.ofText "connect" :: place <:+ opened
  marker : ¬opened <:+ .ofText "package.json" :: place

theorem Spare.apart {place spot there : Place} (spare : Spare place spot)
    (within : .ofText "connect" :: place <:+ there) : ¬spot <:+ there := by
  intro below
  rcases List.suffix_or_suffix_of_suffix below within with higher | deeper
  · exact spare.connect higher
  · exact spare.within deeper

/-- A scratch directory through which no way to the compiler's directory leads, and which is neither in that
directory nor in the marker's place. -/
structure Aside (output : OutputTree) (tree opened : FileTree) : Prop where
  way (front : List RawString) (place : Place) : front <+: output.connect.names →
    opened.Leads [] front place → tree.Leads [] front place
  connect (place : Place) : tree.Leads [] output.connect.names place →
    ∀ front, opened.node? (front ++ place) = tree.node? (front ++ place)
  marker (place : Place) : tree.Leads [] output.root.names place →
    opened.node? (.ofText "package.json" :: place) = tree.node? (.ofText "package.json" :: place)

/-- The output root leads to a directory without links below it, or goes on by names from where it stops,
and nothing is there. -/
structure Site (tree : FileTree) (root : Path) (front rest : List RawString) (base : Place) : Prop where
  sound : tree.Sound
  tidy : root.Tidy
  stops : tree.Stops root.names front rest base
  short : Short rest
  free : rest = [] → tree.LinkFree base
  vacant {first : RawString} {more : List RawString} : rest = first :: more → tree.node? (first :: base) = none

theorem onWay_of_suffix {spot base : Place} {steps : List RawString} (above : spot <:+ steps.reverse ++ base) :
    spot <:+ base ∨ OnWay base steps spot := by
  rcases List.suffix_or_suffix_of_suffix above (List.suffix_append steps.reverse base) with
    higher | ⟨inner, rfl⟩
  · exact Or.inl higher
  · by_cases none_ : inner = []
    · subst none_
      exact Or.inl (List.suffix_refl _)
    · refine Or.inr ⟨inner.reverse, by simpa using none_, ?_, by simp⟩
      obtain ⟨before, whole⟩ := above
      rw [← List.append_assoc, List.append_cancel_right_eq] at whole
      exact ⟨before.reverse, by rw [← List.reverse_append, whole, List.reverse_reverse]⟩

namespace Site
variable {tree opened opened' later made made' : FileTree} {root : Path} {front rest : List RawString}
  {base spot spot' place : Place}

theorem proper (site : Site tree root front rest base) : Proper (front ++ rest) :=
  site.stops.spelled ▸ proper_names root

theorem frontProper (site : Site tree root front rest base) : Proper front :=
  site.proper.part (List.prefix_append _ _)

theorem directory (site : Site tree root front rest base) : tree.node? base = some .directory :=
  site.stops.leads.directory site.frontProper

theorem fresh (site : Site tree root front rest base) {first : RawString} {more : List RawString}
    (shape : rest = first :: more) (inner : Place) : tree.node? (inner ++ first :: base) = none :=
  site.sound.none_below (site.vacant shape) inner

theorem clear (site : Site tree root front rest base) (grows : Grows tree later) (tail : List RawString) :
    later.Clear base (rest ++ tail) :=
  site.stops.clear (proper_names root) site.sound site.free site.vacant grows tail

theorem linkFree (site : Site tree root front rest base) : tree.LinkFree (rest.reverse ++ base) := by
  intro inner target held
  cases shape : rest with
  | nil =>
    rw [shape] at held
    exact site.free shape inner target held
  | cons first more =>
    rw [shape, List.reverse_cons, List.append_assoc, ← List.append_assoc, List.singleton_append,
      site.fresh shape] at held
    cases held

theorem leads_of_held (site : Site tree root front rest base)
    (held : tree.node? (rest.reverse ++ base) = some .directory) :
    rest = [] ∧ tree.Leads [] root.names (rest.reverse ++ base) := by
  cases shape : rest with
  | nil =>
    refine ⟨rfl, ?_⟩
    have leads := site.stops.leads
    rw [site.stops.spelled, shape, List.append_nil]
    exact leads
  | cons first more =>
    rw [shape, List.reverse_cons, List.append_assoc, List.singleton_append, site.fresh shape] at held
    cases held

section Scratch
variable (site : Site tree root front rest base) (opens : Opens tree opened spot)
  (held : opened.node? spot = some .directory) (aside : Aside ⟨root⟩ tree opened)
include site opens held aside

theorem not_above : ¬spot <:+ (rest ++ [RawString.ofText "connect"]).reverse ++ base := by
  have child : ∀ {steps : List RawString} {above : Place} {name : RawString}, Proper steps → Path.IsName name →
      name.bytes.length ≤ nameLimit → steps ++ [name] <+: (OutputTree.mk root).connect.names →
      tree.Leads [] steps above → spot ≠ name :: above := by
    intro steps above name proper named fits short leads here
    have further : opened.Leads [] (steps ++ [name]) spot := by
      rw [here]
      exact (leads.grows opens.grows).child proper (here ▸ held) ⟨named.2.1, named.2.2.1⟩ fits true
    have before := (aside.way _ _ short further).directory
      ((proper_names _).part short)
    rw [opens.vacant] at before
    cases before
  have names : (OutputTree.mk root).connect.names = front ++ (rest ++ [.ofText "connect"]) := by
    rw [show (OutputTree.mk root).connect.names = root.names ++ [.ofText "connect"] from
      (Path.Below.start site.tidy (by decide)).names, site.stops.spelled, List.append_assoc]
  intro above
  rcases onWay_of_suffix above with higher | ⟨inner, some_, short, here⟩
  · have inside := site.directory
    rw [opens.empty higher] at inside
    cases inside
  cases shape : rest with
  | nil =>
    rw [shape, List.nil_append] at short names
    rcases List.prefix_cons_iff.mp short with nothing | ⟨deeper, rfl, last⟩
    · exact some_ nothing
    · rw [List.prefix_nil.mp last] at here
      exact child site.frontProper (by decide) (by decide) (names ▸ List.prefix_refl _) site.stops.leads here
  | cons first more =>
    rw [shape] at short names
    obtain nothing | ⟨deeper, rfl, _⟩ := List.prefix_cons_iff.mp short
    · exact some_ nothing
    rw [List.reverse_cons, List.append_assoc, List.singleton_append] at here
    by_cases last : deeper = []
    · rw [last, List.reverse_nil, List.nil_append] at here
      refine child site.frontProper (site.stops.named first (by simp [shape]))
        (site.short first (by simp [shape])) ?_ site.stops.leads here
      rw [names]
      exact ⟨more ++ [.ofText "connect"], by simp⟩
    · have inside : opened.node? (first :: base) = some .directory :=
        opens.sound'.above (here ▸ held) (by simpa using last)
      have away : first :: base ≠ spot := by
        rintro rfl
        exact last (by simpa using here)
      rw [opens.place _ away, site.vacant shape] at inside
      cases inside

theorem spare : Spare (rest.reverse ++ base) spot := by
  have above := site.not_above opens held aside
  rw [List.reverse_append, List.reverse_singleton, List.singleton_append, List.cons_append] at above
  have higher : ∀ {name : RawString}, spot ≠ name :: (rest.reverse ++ base) →
      ¬spot <:+ name :: (rest.reverse ++ base) := by
    intro name away below
    rcases List.suffix_cons_iff.mp below with here | deeper
    · exact away here
    · exact above (deeper.trans (List.suffix_cons _ _))
  have named : Path.IsName "connect" := by decide
  refine ⟨opens.inside, above, ?_, higher ?_⟩
  · rintro ⟨inner, rfl⟩
    have some_ : inner ≠ [] := by
      rintro rfl
      exact above (List.suffix_refl _)
    have inside := opens.sound'.above held some_
    rw [opens.place _ (by simpa using some_)] at inside
    -- The scratch directory would stand in a directory of the compiler that is there already.
    obtain ⟨none_, leads⟩ := site.leads_of_held (site.sound.rooted inside)
    have further := leads.child (proper_names root) inside ⟨named.2.1, named.2.2.1⟩ (by decide) true
    have names := (Path.Below.start site.tidy named).names
    rw [← names] at further
    rw [aside.connect _ further, opens.vacant] at held
    cases held
  · intro here
    have inside := opens.sound'.rooted (here ▸ held)
    rw [opens.place _ (fun same => by simpa [here] using congrArg List.length same)] at inside
    obtain ⟨_, leads⟩ := site.leads_of_held inside
    have kept := aside.marker _ leads
    rw [← here, held, opens.vacant] at kept
    cases kept

end Scratch

theorem exists_site (sound : tree.Sound) (tidy : root.Tidy) (grounded : tree.Grounded root.names)
    (free : ∀ place, tree.Leads [] root.names place → tree.LinkFree place)
    (opens : Opens tree opened spot) (aside : Aside ⟨root⟩ tree opened)
    (makes : opened.makeDirectories (OutputTree.mk root).connect = (made, none)) :
    ∃ front rest base, Site tree root front rest base := by
  have start : root.Below (OutputTree.mk root).connect ["connect"] := .start tidy (by decide)
  obtain ⟨front, rest, base, stops⟩ := exists_stops sound (proper_names root) tidy.2 grounded
  have within : root.names <+: (OutputTree.mk root).connect.names := start.names ▸ List.prefix_append _ _
  have stops' : opened.Stops root.names front rest base :=
    { spelled := stops.spelled
      leads := stops.leads.grows opens.grows
      named := stops.named
      ends := fun {first more} shape place leads => by
        have short : front ++ [first] <+: root.names := ⟨more, by simp [stops.spelled, shape]⟩
        exact stops.ends shape place (aside.way _ _ (short.trans within) leads) }
  have vacant : ∀ {first : RawString} {more : List RawString}, rest = first :: more →
      tree.node? (first :: base) = none := by
    rintro first more rfl
    have none_ : opened.node? (first :: base) = none := by
      refine stops'.vacant opens.sound' start.tidy start.names ?_ makes
      rw [start.names]
      exact (grounded.grows opens.grows).append start.named
    by_cases here : first :: base = spot
    · rw [here, opens.vacant]
    · rwa [← opens.place _ here]
  have free' : rest = [] → tree.LinkFree base := by
    rintro rfl
    refine free base ?_
    rw [stops.spelled, List.append_nil]
    exact stops.leads
  -- Directories have been made by these names, so they are short.
  obtain ⟨grows, _⟩ := makeDirectories_grows opens.sound' makes
  obtain ⟨_, place, leads⟩ := leads_of_makeDirectories start.tidy opens.sound' makes
  have whole := opens.grows.trans grows
  have named : ∀ name ∈ rest ++ [.ofText "connect"], Path.IsName name := fun name member =>
    (List.mem_append.mp member).elim (stops.named name) (start.named name)
  obtain ⟨left, same⟩ := (stops.leads.grows whole).append
  rw [start.names, stops.spelled, List.append_assoc, Leads, same true _ (by simp)] at leads
  obtain ⟨short, _⟩ := place_of_follow (plain_of_named named)
    (stops.clear (proper_names root) sound free' vacant whole ["connect"]) leads
  exact ⟨front, rest, base, sound, tidy, stops,
    fun name member => short name (List.mem_append_left _ member), free', vacant⟩

theorem above_on_way {inner : List RawString} (short : inner <+: rest ++ [.ofText "connect"]) :
    inner.reverse ++ base <:+ .ofText "connect" :: (rest.reverse ++ base) := by
  obtain ⟨more, whole⟩ := short
  exact ⟨more.reverse, by rw [← List.append_assoc, ← List.reverse_append, whole]; simp⟩

section Makes
variable (site : Site tree root front rest base) (opens : Opens tree opened spot)
  (opens' : Opens tree opened' spot') (spare : Spare (rest.reverse ++ base) spot)
  (spare' : Spare (rest.reverse ++ base) spot')
include site opens opens' spare spare'

/-- Two trees with different scratch directories are abreast on the way to the compiler's directory. -/
theorem abreast : Abreast opened opened' front base (rest ++ [.ofText "connect"]) where
  leads := site.stops.leads.grows opens.grows
  leads' := site.stops.leads.grows opens'.grows
  clear := site.clear opens.grows ["connect"]
  same inner short := by
    have away : ∀ {spot : Place}, Spare (rest.reverse ++ base) spot → inner.reverse ++ base ≠ spot :=
      fun spare here => spare.connect (here ▸ above_on_way short)
    refine sight?_congr ?_
    rw [opens.place _ (away spare), opens'.place _ (away spare')]
  fixed := opens.grows.fixed.trans opens'.grows.fixed.symm

theorem makes (makes : opened.makeDirectories (OutputTree.mk root).connect = (made, none)) :
    ∃ made', opened'.makeDirectories (OutputTree.mk root).connect = (made', none) ∧
      Together (OnWay base (rest ++ [.ofText "connect"])) opened opened' made made' := by
  have start : root.Below (OutputTree.mk root).connect ["connect"] := .start site.tidy (by decide)
  have plain : Plain (rest ++ [.ofText "connect"]) := plain_of_named fun name member =>
    (List.mem_append.mp member).elim (site.stops.named name) (start.named name)
  have spelled : (OutputTree.mk root).connect.names = front ++ (rest ++ [.ofText "connect"]) := by
    rw [start.names, site.stops.spelled, List.append_assoc]
  obtain ⟨first, second, error, result, result', together⟩ :=
    (site.abreast opens opens' spare spare').makeDirectories plain start.tidy spelled opens.sound'
      opens'.sound'
  rw [makes] at result
  cases result
  exact ⟨second, result', together⟩

end Makes

theorem shared_of_onWay (spare : Spare (rest.reverse ++ base) spot)
    (spare' : Spare (rest.reverse ++ base) spot') {there : Place}
    (onWay : OnWay base (rest ++ [.ofText "connect"]) there) : Shared (rest.reverse ++ base) spot spot' there := by
  obtain ⟨inner, _, short, rfl⟩ := onWay
  have above : inner.reverse ++ base <:+ .ofText "connect" :: (rest.reverse ++ base) := above_on_way short
  exact ⟨fun below => absurd (eq_of_suffixes (below.trans above) (List.suffix_refl _)) (by decide),
    fun below => spare.connect (below.trans above), fun below => spare'.connect (below.trans above)⟩

theorem node?_remove_opened (opens : Opens tree opened spot) (there : Place) :
    (opened.remove spot).node? there = tree.node? there := by
  rw [node?_remove _ opens.inside]
  split
  next below => exact (opens.empty below).symm
  next apart => exact opens.place _ fun same => apart (same ▸ List.suffix_refl _)

theorem level (site : Site tree root front rest base) (opens : Opens tree opened spot)
    (opens' : Opens tree opened' spot') (spare : Spare (rest.reverse ++ base) spot)
    (spare' : Spare (rest.reverse ++ base) spot')
    (makes : opened.makeDirectories (OutputTree.mk root).connect = (made, none))
    (makes' : opened'.makeDirectories (OutputTree.mk root).connect = (made', none)) :
    Level (rest.reverse ++ base) spot spot' made made' := by
  obtain ⟨_, result, together⟩ := site.makes opens opens' spare spare' makes
  rw [makes'] at result
  cases result
  refine Level.moved (fun there _ => sight?_congr ?_) spare.inside spare'.inside together
    fun there onWay => shared_of_onWay spare spare' onWay
  rw [node?_remove_opened opens, node?_remove_opened opens']

theorem untouched (site : Site tree root front rest base) (opens : Opens tree opened spot)
    (spare : Spare (rest.reverse ++ base) spot)
    (makes : opened.makeDirectories (OutputTree.mk root).connect = (made, none)) {there : Place}
    (inner : .ofText "trpc" :: (rest.reverse ++ base) <:+ there) :
    (made.remove spot).node? there = tree.node? there := by
  obtain ⟨_, result, together⟩ := site.makes opens opens spare spare makes
  rw [makes] at result
  cases result
  rw [← node?_remove_opened opens, node?_remove _ opens.inside, node?_remove _ opens.inside]
  rcases together there with ⟨kept, _⟩ | ⟨onWay, _⟩
  · rw [kept]
  · exact absurd inner (shared_of_onWay spare spare onWay).1

theorem leads_remove (site : Site tree root front rest base) (opens : Opens tree opened spot)
    (spare : Spare (rest.reverse ++ base) spot) (grows : Grows tree (made.remove spot)) (sound : made.Sound)
    (leads : made.Leads [] root.names (rest.reverse ++ base)) :
    (made.remove spot).Leads [] root.names (rest.reverse ++ base) := by
  have early := site.stops.leads.grows grows
  have inside := leads.directory (proper_names root)
  rw [site.stops.spelled]
  by_cases none_ : rest = []
  · rw [none_, List.append_nil]
    exact early
  · obtain ⟨left, same⟩ := early.append
    rw [Leads, same true rest none_]
    have clear := site.clear grows []
    rw [List.append_nil] at clear
    refine follow_plain (sound.remove opens.inside) left (plain_of_named site.stops.named) site.short clear ?_
    rw [node?_remove _ opens.inside, if_neg fun above => spare.connect (above.trans (List.suffix_cons _ _))]
    exact inside

end Site

end TrpcRouters.Generation
