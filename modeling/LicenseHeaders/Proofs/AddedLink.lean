import LicenseHeaders.Proofs.LaterStores
import LicenseHeaders.Proofs.SimilarDirectories

/-!
One link more. Whoever follows a path elsewhere does not see a link under a fresh name, unless a
link that was there before leads by way of that name. So what is done under any other name is
answered alike with the link and without it, and changes the same entries; only the listing of its
directory shows it.
-/
namespace LicenseHeaders

theorem Route.into_of_stepsTo {r : Route} {creating : Bool} {before : List Step} {part : Text}
    (h : before ++ [.into part] <+: r.stepsTo creating) :
    before ++ [.into part] <+: r.stepsTo false := by
  unfold stepsTo at h ⊢
  cases closed : r.closed with
  | false => simpa [closed] using h
  | true =>
    cases creating with
    | false => simpa [closed] using h
    | true =>
      simp only [closed, Bool.not_true, Bool.false_eq_true, if_false, if_true] at h ⊢
      rcases List.prefix_concat_iff.1 h with whole | early
      · have last := congrArg List.getLast? whole
        simp at last
      · exact early.trans ((List.dropLast_prefix _).trans (List.prefix_append _ _))

namespace Store

/-- A first part of the steps leads to the directory, and the next step goes into the name. -/
def Treads (s : Store) (directory : Location) (name : Name) (links : Nat) (a : Location)
    (steps : List Step) : Prop :=
  ∃ before spent, before ++ [.into name.text] <+: steps ∧ spent ≤ links ∧
    s.Leads spent a before directory

/-- No link leads by way of the name, whether anything has that name or not. -/
def Untrodden (s : Store) (directory : Location) (name : Name) : Prop :=
  ∀ place other target, s.get? (place ++ [other]) = some (.link target) →
    ¬ s.Treads directory name (linkLimit - 1) (linkStart place target) (linkSteps target)

/-- The second store has a link where nothing is in the first. -/
structure Adds (s s' : Store) (spot : Location) (target : Text) : Prop where
  base : s'.base = s.base
  free : s.get? spot = none
  held : s'.get? spot = some (.link target)
  elsewhere : ∀ place, place ≠ spot → s'.get? place = s.get? place

section Treads

variable {s : Store} {directory a b : Location} {name : Name} {links : Nat} {steps rest : List Step}

theorem Treads.mono (h : s.Treads directory name links a steps) {more : Nat} (le : links ≤ more) :
    s.Treads directory name more a steps := by
  obtain ⟨before, spent, begins, within, leads⟩ := h
  exact ⟨before, spent, begins, by omega, leads⟩

theorem Treads.after (h : s.Treads directory name links b rest) (first : s.Leads 0 a steps b) :
    s.Treads directory name links a (steps ++ rest) := by
  obtain ⟨before, spent, begins, within, leads⟩ := h
  refine ⟨steps ++ before, 0 + spent, ?_, by omega, first.append leads⟩
  rw [List.append_assoc]
  exact (List.prefix_append_right_inj steps).2 begins

theorem Treads.link {other : Name} {target : Text} (inside : s.IsDirectory a)
    (found : s.get? (a ++ [other]) = some (.link target))
    (h : s.Treads directory name links (linkStart a target) (linkSteps target ++ rest)) :
    s.Treads directory name links (linkStart a target) (linkSteps target) ∨
      s.Treads directory name (links + 1) a (.into other.text :: rest) := by
  obtain ⟨before, spent, begins, within, leads⟩ := h
  have own : before ++ [.into name.text] <+: linkSteps target ∨ linkSteps target <+: before := by
    rcases List.prefix_or_prefix_of_prefix begins (List.prefix_append _ rest) with early | late
    · exact .inl early
    · rcases List.prefix_concat_iff.1 late with whole | late
      · exact .inl (whole ▸ List.prefix_refl _)
      · exact .inr late
  rcases own with early | ⟨more, rfl⟩
  · exact .inl ⟨before, spent, early, within, leads⟩
  · rw [List.append_assoc, List.prefix_append_right_inj] at begins
    refine .inr ⟨.into other.text :: more, spent + 1, ?_, by omega, .link inside found leads⟩
    exact List.cons_prefix_cons.2 ⟨rfl, begins⟩

theorem not_treads_child {part : Text}
    (apart : ∀ other : Name, other.text = part → a ++ [other] ≠ directory ++ [name]) :
    ¬ s.Treads directory name links a [Step.ofPart part] := by
  intro given
  obtain ⟨before, spent, begins, _, leads⟩ := given
  have short := begins.length_le
  rw [List.length_append, List.length_singleton, List.length_singleton] at short
  obtain rfl : before = [] := List.length_eq_zero_iff.1 (by omega)
  have step := (List.cons_prefix_cons.1 begins).1
  cases leads
  exact apart name (Step.text_of_ofPart step.symm).symm rfl

end Treads

namespace Adds

variable {s s' : Store} {directory : Location} {name : Name} {target : Text}
variable (h : Adds s s' (directory ++ [name]) target)
include h

theorem grows : Extends s s' := by
  intro place node found
  refine .inl ((h.elsewhere place ?_).trans found)
  intro same
  rw [same, h.free] at found
  cases found

theorem isDirectory_iff {place : Location} : s'.IsDirectory place ↔ s.IsDirectory place := by
  by_cases same : place = directory ++ [name]
  · subst same
    exact iff_of_false (by simp [IsDirectory, h.held]) (by simp [IsDirectory, h.free])
  · rw [IsDirectory, h.elsewhere place same, IsDirectory]

theorem reaches {p : Path} {spent : Nat} {place : Location} (reached : Reaches s p spent place) :
    Reaches s' p spent place :=
  ⟨h.base ▸ reached.leads.extend h.grows, reached.within, h.grows.isDirectory reached.inside⟩

theorem put {place : Location} (away : place ≠ directory ++ [name]) (below : place ≠ [])
    (node : Node) : Adds (s.put place node) (s'.put place node) (directory ++ [name]) target := by
  refine ⟨h.base, ?_, ?_, fun other apart => ?_⟩
  · rw [get?_put _ _ _ _ below, if_neg away.symm, h.free]
  · rw [get?_put _ _ _ _ below, if_neg away.symm, h.held]
  · rw [get?_put _ _ _ _ below, get?_put _ _ _ _ below, h.elsewhere other apart]

theorem erase {place : Location} (away : place ≠ directory ++ [name]) (below : place ≠ []) :
    Adds (s.erase place) (s'.erase place) (directory ++ [name]) target := by
  refine ⟨h.base, ?_, ?_, fun other apart => ?_⟩
  · rw [get?_erase _ _ _ below, if_neg away.symm, h.free]
  · rw [get?_erase _ _ _ below, if_neg away.symm, h.held]
  · rw [get?_erase _ _ _ below, get?_erase _ _ _ below, h.elsewhere other apart]

theorem entriesIn (place : Location) : s.entriesIn place =
    (s'.entriesIn place).filter fun entry => place ++ [entry.name] ≠ directory ++ [name] := by
  refine entries_ext (s.sorted_entriesIn place) ((s'.sorted_entriesIn place).filter _) ?_
  intro entry
  rw [List.mem_filter, mem_entriesIn, mem_entriesIn, decide_eq_true_eq]
  by_cases same : place ++ [entry.name] = directory ++ [name]
  · simp [same, h.free]
  · simp [same, h.elsewhere _ same]

section Follow

variable (tree : s.IsTree) (untrodden : s.Untrodden directory name)
include tree untrodden

theorem travel {creating : Bool} {links : Nat} (within : links ≤ linkLimit) {a : Location}
    {node : Node} (there : s.get? a = some node) {steps : List Step}
    (apart : ¬ s.Treads directory name links a steps) :
    s'.travel creating links a steps = s.travel creating links a steps ∧
      s.travel creating links a steps ≠ .ok (directory ++ [name]) := by
  induction links using Nat.strongRecOn generalizing a node steps with
  | ind links ihLinks =>
    induction steps generalizing a node with
    | nil =>
      rw [travel_nil, travel_nil]
      refine ⟨rfl, ?_⟩
      intro same
      cases same
      rw [h.free] at there
      cases there
    | cons step rest ih =>
      by_cases inside : s.IsDirectory a
      · have inside' := h.isDirectory_iff.2 inside
        cases step with
        | stay =>
          rw [travel_stay inside, travel_stay inside']
          split
          · simp
          · exact ih there fun treads => apart (treads.after (.stay inside (.here a)))
        | up =>
          rw [travel_up inside, travel_up inside']
          split
          · simp
          · exact ih (tree a inside) fun treads => apart (treads.after (.up inside (.here _)))
        | into part =>
          cases named : Name.ofText? part with
          | none => simp [travel_unnamed inside named, travel_unnamed inside' named]
          | some other =>
            obtain rfl := Name.text_of_ofText? named
            have away : a ++ [other] ≠ directory ++ [name] := by
              intro same
              obtain ⟨rfl, last⟩ := List.append_inj' same rfl
              cases last
              exact apart ⟨[], 0, ⟨rest, rfl⟩, by omega, .here a⟩
            rw [travel_into inside, travel_into inside', h.elsewhere _ away]
            cases held : s.get? (a ++ [other]) with
            | none =>
              dsimp only
              split
              · simpa using away
              · simp
            | some next =>
            cases next with
            | file | directory =>
              have first : s.Leads 0 a [.into other.text] (a ++ [other]) :=
                .into inside held (by simp [Node.kind]) (.here _)
              exact ih held fun treads => apart (treads.after first)
            | link text =>
              cases links with
              | zero => simp [onLink]
              | succ links =>
                refine ihLinks links (by omega) (by omega) (linkStart_isDirectory inside text) ?_
                intro treads
                have open_ : s.Treads directory name links (linkStart a text)
                    (linkSteps text ++ rest) := by
                  by_cases last : creating = true ∧ rest = []
                  · obtain ⟨before, spent, begins, le, leads⟩ := treads
                    obtain ⟨rfl, rfl⟩ := last
                    rw [List.append_nil] at begins ⊢
                    exact ⟨before, spent, Route.into_of_stepsTo begins, le, leads⟩
                  · rwa [decide_eq_false last] at treads
                rcases open_.link inside held with own | later
                · exact untrodden a other text held (own.mono (by omega))
                · exact apart later
      · have outside := mt h.isDirectory_iff.1 inside
        simp [travel_outside inside, travel_outside outside]

variable {dir : Path} {spent : Nat} {place : Location} (reached : Reaches s dir spent place)
variable {part : Text}
variable (apart : ∀ other : Name, other.text = part → place ++ [other] ≠ directory ++ [name])
include reached apart

theorem follow (creating : Bool) :
    s'.follow creating (.ofPath (dir.child part)) = s.follow creating (.ofPath (dir.child part)) ∧
      s.follow creating (.ofPath (dir.child part)) ≠ .ok (directory ++ [name]) := by
  rw [reached.follow_child, (h.reaches reached).follow_child]
  exact h.travel tree untrodden (Nat.sub_le ..) reached.inside (not_treads_child apart)

theorem locate : s'.locate (dir.child part) = s.locate (dir.child part) ∧
    s.locate (dir.child part) ≠ .ok (directory ++ [name]) := by
  rw [locate_eq, locate_eq]
  split
  · exact h.follow tree untrodden reached apart false
  · simp

theorem look : (∃ cause, s.locate (dir.child part) = .error cause ∧
      s'.locate (dir.child part) = .error cause) ∨
    ∃ other, s.locate (dir.child part) = .ok other ∧ s'.locate (dir.child part) = .ok other ∧
      s'.get? other = s.get? other := by
  obtain ⟨same, away⟩ := h.locate tree untrodden reached apart
  rw [same]
  cases found : s.locate (dir.child part) with
  | error cause => exact .inl ⟨cause, rfl, rfl⟩
  | ok other =>
    rw [found] at away
    exact .inr ⟨other, rfl, rfl, h.elsewhere other fun same => away (congrArg _ same)⟩

theorem kindAt : s'.kindAt (dir.child part) = s.kindAt (dir.child part) := by
  unfold Store.kindAt
  rcases h.look tree untrodden reached apart with ⟨cause, lost, lost'⟩ | ⟨other, found, found', same⟩
  · rw [lost, lost']
    rfl
  · simp only [found, found', bind, Except.bind, same]

theorem read : s'.read (dir.child part) = s.read (dir.child part) := by
  unfold Store.read
  rcases h.look tree untrodden reached apart with ⟨cause, lost, lost'⟩ | ⟨other, found, found', same⟩
  · rw [lost, lost']
    rfl
  · simp only [found, found', bind, Except.bind, same]

theorem write (contents : Bytes) :
    (∃ cause, s.write (dir.child part) contents = .error cause ∧
      s'.write (dir.child part) contents = .error cause) ∨
    ∃ other, other ≠ directory ++ [name] ∧
      s.write (dir.child part) contents = .ok (other, s.put other (.file contents)) ∧
      s'.write (dir.child part) contents = .ok (other, s'.put other (.file contents)) := by
  obtain ⟨same, away⟩ := h.follow tree untrodden reached apart true
  unfold Store.write
  rw [locateForWriting_eq, locateForWriting_eq, same]
  split
  · cases found : s.follow true (.ofPath (dir.child part)) with
    | error cause => exact .inl ⟨cause, rfl, rfl⟩
    | ok other =>
      have apart : other ≠ directory ++ [name] := by
        rintro rfl
        exact away found
      simp only [bind, Except.bind, h.elsewhere other apart]
      cases held : s.get? other with
      | none => exact .inr ⟨other, apart, rfl, rfl⟩
      | some node =>
        cases node with
        | directory => exact .inl ⟨_, rfl, rfl⟩
        | file | link => exact .inr ⟨other, apart, rfl, rfl⟩
  · exact .inl ⟨_, rfl, rfl⟩

end Follow

theorem move {dir : Path} {spent : Nat} {place : Location} (reached : Reaches s dir spent place)
    {a b : Text}
    (apart : ∀ other : Name, other.text = a → place ++ [other] ≠ directory ++ [name])
    (apart' : ∀ other : Name, other.text = b → place ++ [other] ≠ directory ++ [name]) :
    (∃ cause, s.move (dir.child a) (dir.child b) = .error cause ∧
      s'.move (dir.child a) (dir.child b) = .error cause) ∨
    ∃ old new node, old ≠ directory ++ [name] ∧ new ≠ directory ++ [name] ∧ old ≠ [] ∧ new ≠ [] ∧
      s.move (dir.child a) (dir.child b) = .ok ((old, new), (s.erase old).put new node) ∧
      s'.move (dir.child a) (dir.child b) = .ok ((old, new), (s'.erase old).put new node) := by
  unfold Store.move
  rw [reached.directoryOf, reached.directoryOf, (h.reaches reached).directoryOf,
    (h.reaches reached).directoryOf, lastName_child, lastName_child]
  by_cases fits : Fits (dir.child a)
  case neg =>
    simp only [if_neg fits]
    exact .inl ⟨_, rfl, rfl⟩
  by_cases fits' : Fits (dir.child b)
  case neg =>
    simp only [if_pos fits, if_neg fits']
    exact .inl ⟨_, rfl, rfl⟩
  simp only [if_pos fits, if_pos fits', bind, Except.bind]
  cases stepA : Step.ofPart a with
  | stay | up => exact .inl ⟨_, rfl, rfl⟩
  | into partA =>
  cases stepB : Step.ofPart b with
  | stay | up => exact .inl ⟨_, rfl, rfl⟩
  | into partB =>
  cases namedA : Name.ofText? partA with
  | none =>
    simp only [entryAt, namedA]
    exact .inl ⟨_, rfl, rfl⟩
  | some source =>
  obtain rfl := Name.text_of_ofText? namedA
  have away := apart source (Step.text_of_ofPart stepA).symm
  simp only [entryAt, namedA, h.elsewhere _ away]
  cases held : s.get? (place ++ [source]) with
  | none => exact .inl ⟨_, rfl, rfl⟩
  | some node =>
  cases namedB : Name.ofText? partB with
  | none => cases node <;> exact .inl ⟨_, rfl, rfl⟩
  | some goal =>
  obtain rfl := Name.text_of_ofText? namedB
  have away' := apart' goal (Step.text_of_ofPart stepB).symm
  simp only [h.elsewhere _ away']
  by_cases free : s.get? (place ++ [goal]) = some .directory
  · simp only [if_pos free]
    cases node <;> exact .inl ⟨_, rfl, rfl⟩
  · simp only [if_neg free]
    cases node with
    | directory => exact .inl ⟨_, rfl, rfl⟩
    | file | link => exact .inr ⟨_, _, _, away, away', by simp, by simp, rfl, rfl⟩

end Adds

end Store

end LicenseHeaders
