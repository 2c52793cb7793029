import LicenseHeaders.Store.Operations

/-!
Where paths lead. `Leads` is a way through a store with all its links followed, counted exactly and
without any limit. A way that ends at a directory never passes a file, nor a link that leads to one,
so it is indifferent to every change of files and of links to files. All later statements about
writing rest on that.
-/
namespace LicenseHeaders

theorem Name.ofText?_text (name : Name) : Name.ofText? name.text = some name := by
  simp [Name.ofText?, name.isName]

theorem Name.text_of_ofText? {part : Text} {name : Name} (h : Name.ofText? part = some name) :
    name.text = part := by
  unfold Name.ofText? at h
  split at h
  · cases h
    rfl
  · cases h

theorem Name.text_injective {a b : Name} (h : a.text = b.text) : a = b := by
  cases a
  cases b
  simp_all

theorem Node.kind_ne_link {node : Node} (h : ∀ target, node = .link target → False) :
    node.kind ≠ .link := by
  cases node with
  | file | directory => simp [Node.kind]
  | link target => exact absurd rfl (h target)

theorem Step.ofPart_name (name : Name) : Step.ofPart name.text = .into name.text := by
  have h := name.isName
  simp [Step.ofPart, h.1, h.2.1, h.2.2.1]

theorem Step.text_of_ofPart {part : Text} {name : Name} (h : Step.ofPart part = .into name.text) :
    part = name.text := by
  unfold Step.ofPart at h
  split at h
  · cases h
  · split at h
    · cases h
    · simpa using h

namespace Store

theorem root_isDirectory (s : Store) : s.IsDirectory [] := by
  simp [IsDirectory, get?]

def linkStart (place : Location) (target : Text) : Location := (Route.ofText target).start place

def linkSteps (target : Text) : List Step := (Route.ofText target).stepsTo false

/-- The steps lead from one place to the other, and this many links are followed on the way. -/
inductive Leads (s : Store) : Nat → Location → List Step → Location → Prop where
  | here (place : Location) : Leads s 0 place [] place
  | stay {n place rest other} (inside : s.IsDirectory place) (more : Leads s n place rest other) :
      Leads s n place (.stay :: rest) other
  | up {n place rest other} (inside : s.IsDirectory place)
      (more : Leads s n place.dropLast rest other) : Leads s n place (.up :: rest) other
  | into {n place rest other} {name : Name} {node : Node} (inside : s.IsDirectory place)
      (found : s.get? (place ++ [name]) = some node) (real : node.kind ≠ .link)
      (more : Leads s n (place ++ [name]) rest other) : Leads s n place (.into name.text :: rest) other
  | link {n place rest other} {name : Name} {target : Text} (inside : s.IsDirectory place)
      (found : s.get? (place ++ [name]) = some (.link target))
      (more : Leads s n (linkStart place target) (linkSteps target ++ rest) other) :
      Leads s (n + 1) place (.into name.text :: rest) other

theorem Leads.append {s : Store} {n m : Nat} {a b c : Location} {steps rest : List Step}
    (first : Leads s n a steps b) (second : Leads s m b rest c) :
    Leads s (n + m) a (steps ++ rest) c := by
  induction first with
  | here place => simpa using second
  | stay inside more ih => exact .stay inside (ih second)
  | up inside more ih => exact .up inside (ih second)
  | into inside found real more ih => exact .into inside found real (ih second)
  | @link n place rest' other name target inside found more ih =>
    have tail := ih second
    rw [List.append_assoc] at tail
    have whole := Leads.link inside found tail
    rwa [Nat.add_right_comm] at whole

theorem Leads.cancel {s : Store} {n m : Nat} {a b c : Location} {steps rest : List Step}
    (first : Leads s n a steps b) (whole : Leads s m a (steps ++ rest) c) :
    ∃ k, m = n + k ∧ Leads s k b rest c := by
  induction first generalizing m with
  | here place => exact ⟨m, by omega, whole⟩
  | stay inside more ih =>
    cases whole with
    | stay _ tail => exact ih tail
  | up inside more ih =>
    cases whole with
    | up _ tail => exact ih tail
  | @into n place rest' other name node inside found real more ih =>
    rw [List.cons_append] at whole
    generalize text : name.text = part at whole
    cases whole with
    | into _ found' _ tail =>
      obtain rfl := Name.text_injective text
      exact ih tail
    | link _ found' tail =>
      obtain rfl := Name.text_injective text
      rw [found] at found'
      cases found'
      exact absurd rfl real
  | @link n place rest' other name target inside found more ih =>
    rw [List.cons_append] at whole
    generalize text : name.text = part at whole
    cases whole with
    | into _ found' real tail =>
      obtain rfl := Name.text_injective text
      rw [found] at found'
      cases found'
      exact absurd rfl real
    | link _ found' tail =>
      obtain rfl := Name.text_injective text
      rw [found] at found'
      cases found'
      rw [← List.append_assoc] at tail
      obtain ⟨k, eq, tail⟩ := ih tail
      exact ⟨k, by omega, tail⟩

theorem Leads.unique {s : Store} {n m : Nat} {a b c : Location} {steps : List Step}
    (first : Leads s n a steps b) (second : Leads s m a steps c) : n = m ∧ b = c := by
  have whole : Leads s m a (steps ++ []) c := by simpa using second
  obtain ⟨k, eq, tail⟩ := first.cancel whole
  cases tail
  exact ⟨by omega, rfl⟩

theorem Leads.at_end {s : Store} {n : Nat} {a b : Location} {steps : List Step}
    (h : Leads s n a steps b) (stop : ¬ s.IsDirectory a) : n = 0 ∧ steps = [] ∧ b = a := by
  cases h with
  | here => exact ⟨rfl, rfl, rfl⟩
  | stay inside | up inside | into inside | link inside => exact absurd inside stop

/-- The place itself, or where the link leads that stands there. -/
def EndsAt (s : Store) (place other : Location) : Prop :=
  place = other ∨ ∃ target n, s.get? place = some (.link target) ∧
    Leads s n (linkStart place.dropLast target) (linkSteps target) other

/-- The entry is a file with these contents or a link that leads to one. -/
def Opens (s : Store) (place : Location) (contents : Bytes) : Prop :=
  ∃ other, s.EndsAt place other ∧ s.get? other = some (.file contents)

theorem opens_file {s : Store} {place : Location} {contents : Bytes}
    (file : s.get? place = some (.file contents)) : s.Opens place contents :=
  ⟨place, .inl rfl, file⟩

theorem Opens.cases {s : Store} {place : Location} {contents : Bytes}
    (h : s.Opens place contents) : s.get? place = some (.file contents) ∨
      ∃ target n other, s.get? place = some (.link target) ∧
        Leads s n (linkStart place.dropLast target) (linkSteps target) other ∧
        s.get? other = some (.file contents) := by
  obtain ⟨other, rfl | ⟨target, n, held, chain⟩, file⟩ := h
  · exact .inl file
  · exact .inr ⟨target, n, other, held, chain, file⟩

theorem Opens.of_file {s : Store} {place : Location} {contents old : Bytes}
    (h : s.Opens place contents) (file : s.get? place = some (.file old)) : old = contents := by
  rcases h.cases with file' | ⟨_, _, _, link, _⟩
  · rw [file] at file'
    cases file'
    rfl
  · rw [file] at link
    cases link

theorem Opens.of_link {s : Store} {place : Location} {name : Name} {target : Text} {contents : Bytes}
    (h : s.Opens (place ++ [name]) contents) (held : s.get? (place ++ [name]) = some (.link target)) :
    ∃ n other, Leads s n (linkStart place target) (linkSteps target) other ∧
      s.get? other = some (.file contents) := by
  rcases h.cases with file | ⟨target', n, other, link, chain, file⟩
  · rw [held] at file
    cases file
  · rw [held] at link
    cases link
    rw [List.dropLast_concat] at chain
    exact ⟨n, other, chain, file⟩

theorem Opens.held {s : Store} {place : Location} {contents : Bytes} (h : s.Opens place contents) :
    ∃ node, s.get? place = some node ∧ node.kind ≠ .directory := by
  rcases h.cases with file | ⟨target, _, _, link, _⟩
  · exact ⟨_, file, by simp [Node.kind]⟩
  · exact ⟨_, link, by simp [Node.kind]⟩

theorem Opens.not_isDirectory {s : Store} {place : Location} {contents : Bytes}
    (h : s.Opens place contents) : ¬ s.IsDirectory place := by
  intro inside
  obtain ⟨node, held, kind⟩ := h.held
  rw [inside] at held
  cases held
  exact kind rfl

/-- The second store has all the first has, where a file may have other contents. -/
def Extends (s s' : Store) : Prop :=
  ∀ place node, s.get? place = some node →
    s'.get? place = some node ∨ node.kind = .file ∧ ∃ contents, s'.get? place = some (.file contents)

theorem Extends.refl (s : Store) : Extends s s := fun _ _ found => .inl found

theorem Extends.isDirectory {s s' : Store} (ext : Extends s s') {place : Location}
    (h : s.IsDirectory place) : s'.IsDirectory place := by
  rcases ext place _ h with same | ⟨file, _⟩
  · exact same
  · cases file

theorem Extends.link {s s' : Store} (ext : Extends s s') {place : Location} {target : Text}
    (h : s.get? place = some (.link target)) : s'.get? place = some (.link target) := by
  rcases ext place _ h with same | ⟨file, _⟩
  · exact same
  · cases file

theorem Extends.real {s s' : Store} (ext : Extends s s') {place : Location} {node : Node}
    (h : s.get? place = some node) (real : node.kind ≠ .link) :
    ∃ node', s'.get? place = some node' ∧ node'.kind ≠ .link := by
  rcases ext place _ h with same | ⟨_, contents, file⟩
  · exact ⟨node, same, real⟩
  · exact ⟨_, file, by simp [Node.kind]⟩

theorem Leads.extend {s s' : Store} (ext : Extends s s') {n : Nat} {a b : Location}
    {steps : List Step} (h : Leads s n a steps b) : Leads s' n a steps b := by
  induction h with
  | here place => exact .here place
  | stay inside more ih => exact .stay (ext.isDirectory inside) ih
  | up inside more ih => exact .up (ext.isDirectory inside) ih
  | into inside found real more ih =>
    obtain ⟨node', found', real'⟩ := ext.real found real
    exact .into (ext.isDirectory inside) found' real' ih
  | link inside found more ih => exact .link (ext.isDirectory inside) (ext.link found) ih

theorem EndsAt.extend {s s' : Store} (ext : Extends s s') {place other : Location}
    (h : s.EndsAt place other) : s'.EndsAt place other := by
  rcases h with rfl | ⟨target, n, held, chain⟩
  · exact .inl rfl
  · exact .inr ⟨target, n, ext.link held, chain.extend ext⟩

theorem Opens.extend {s s' : Store} (ext : Extends s s') {place : Location} {contents : Bytes}
    (h : s.Opens place contents) : ∃ contents', s'.Opens place contents' := by
  obtain ⟨other, ends, file⟩ := h
  rcases ext _ _ file with same | ⟨_, contents', same⟩
  · exact ⟨contents, other, ends.extend ext, same⟩
  · exact ⟨contents', other, ends.extend ext, same⟩

/-- The stores differ at most where the first has nothing, a file, or a link that leads to a file. -/
def SameDirectories (s s' : Store) : Prop :=
  ∀ place, s'.get? place = s.get? place ∨ s.get? place = none ∨ ∃ contents, s.Opens place contents

theorem SameDirectories.isDirectory {s s' : Store} (same : SameDirectories s s')
    {place : Location} (h : s.IsDirectory place) : s'.IsDirectory place := by
  rcases same place with eq | missing | ⟨contents, opens⟩
  · rw [IsDirectory, eq]
    exact h
  · rw [h] at missing
    cases missing
  · exact absurd h opens.not_isDirectory

theorem Leads.to_directory {s s' : Store} (same : SameDirectories s s') {n : Nat} {a b : Location}
    {steps : List Step} (h : Leads s n a steps b) (target : s.IsDirectory b) :
    Leads s' n a steps b := by
  induction h with
  | here place => exact .here place
  | stay inside more ih => exact .stay (same.isDirectory inside) (ih target)
  | up inside more ih => exact .up (same.isDirectory inside) (ih target)
  | @into n place rest other name node inside found real more ih =>
    have here : s.IsDirectory (place ++ [name]) := by
      by_cases end_ : s.IsDirectory (place ++ [name])
      · exact end_
      · obtain ⟨_, _, rfl⟩ := more.at_end end_
        exact absurd target end_
    have found' : s'.get? (place ++ [name]) = some .directory := same.isDirectory here
    exact .into (same.isDirectory inside) found' (by simp [Node.kind]) (ih target)
  | @link n place rest other name targetText inside found more ih =>
    refine .link (same.isDirectory inside) ?_ (ih target)
    rcases same (place ++ [name]) with eq | missing | ⟨contents, opens⟩
    · rw [eq, found]
    · rw [found] at missing
      cases missing
    · obtain ⟨k, last, chain, file⟩ := opens.of_link found
      obtain ⟨_, _, tail⟩ := chain.cancel more
      obtain ⟨_, _, rfl⟩ := tail.at_end (by simp [IsDirectory, file])
      rw [IsDirectory, file] at target
      cases target

theorem extends_of_erase {s s' : Store} {place : Location} (below : place ≠ [])
    (same : ∀ other node, other ≠ place → s.get? other = some node → s'.get? other = some node) :
    Extends (s.erase place) s' := by
  intro other node found
  rw [get?_erase _ _ _ below] at found
  split at found
  · cases found
  · rename_i differs
    exact .inl (same other node differs found)

theorem Extends.put {s s' : Store} (ext : Extends s s') {place : Location} (below : place ≠ [])
    (node : Node) : Extends (s.put place node) (s'.put place node) := by
  intro other held found
  rw [get?_put _ _ _ _ below] at found ⊢
  split at found
  · rw [if_pos (by assumption)]
    exact .inl found
  · rw [if_neg (by assumption)]
    exact ext other held found

theorem isDirectory_erase {s : Store} {place other : Location} (below : place ≠ [])
    (keep : other ≠ place) (inside : s.IsDirectory other) : (s.erase place).IsDirectory other := by
  rw [IsDirectory, get?_erase _ _ _ below, if_neg keep]
  exact inside

theorem isDirectory_put {s : Store} {place other : Location} (below : place ≠ [])
    (keep : other ≠ place) (node : Node) (inside : s.IsDirectory other) :
    (s.put place node).IsDirectory other := by
  rw [IsDirectory, get?_put _ _ _ _ below, if_neg keep]
  exact inside

theorem Leads.avoid {s : Store} {place last : Location} {name : Name} {target : Text} {m : Nat}
    (held : s.get? (place ++ [name]) = some (.link target))
    (chain : Leads s m (linkStart place target) (linkSteps target) last) {n : Nat}
    {a b : Location} {steps : List Step} (h : Leads s n a steps b) (short : n ≤ m) :
    Leads (s.erase (place ++ [name])) n a steps b := by
  have below : place ++ [name] ≠ [] := by simp
  have keep : ∀ {other}, s.IsDirectory other → (s.erase (place ++ [name])).IsDirectory other := by
    intro other inside
    refine isDirectory_erase below ?_ inside
    intro same
    subst same
    rw [inside] at held
    cases held
  induction h with
  | here place => exact .here place
  | stay inside more ih => exact .stay (keep inside) (ih short)
  | up inside more ih => exact .up (keep inside) (ih short)
  | @into n there rest other name' node inside found real more ih =>
    refine .into (keep inside) ?_ real (ih short)
    rw [get?_erase _ _ _ below, if_neg ?_, found]
    intro same
    rw [same, held] at found
    cases found
    exact real rfl
  | @link n there rest other name' target' inside found more ih =>
    refine .link (keep inside) ?_ (ih (by omega))
    rw [get?_erase _ _ _ below, if_neg ?_, found]
    intro same
    obtain ⟨rfl, same⟩ := List.append_inj' same rfl
    obtain rfl : name' = name := by simpa using same
    rw [held] at found
    cases found
    obtain ⟨k, eq, _⟩ := chain.cancel more
    omega

theorem Leads.erase_or {s : Store} {place last : Location} {contents : Bytes}
    (ends : s.EndsAt place last) (file : s.get? last = some (.file contents)) (other : Bytes)
    {n : Nat} {a b : Location} {steps : List Step} (h : Leads s n a steps b) :
    Leads (s.erase place) n a steps b ∨
      b = last ∧ ∃ m, m ≤ n ∧ Leads (s.put place (.file other)) m a steps place := by
  have solid : ¬ s.IsDirectory place := Opens.not_isDirectory ⟨last, ends, file⟩
  have stop : ¬ s.IsDirectory last := by simp [IsDirectory, file]
  have below : place ≠ [] := by
    intro same
    subst same
    exact solid s.root_isDirectory
  have apart : ∀ {there}, s.IsDirectory there → there ≠ place := by
    intro there inside same
    subst same
    exact solid inside
  have keep : ∀ {there}, s.IsDirectory there → (s.erase place).IsDirectory there :=
    fun inside => isDirectory_erase below (apart inside) inside
  have keep' : ∀ {there}, s.IsDirectory there → (s.put place (.file other)).IsDirectory there :=
    fun inside => isDirectory_put below (apart inside) _ inside
  have atPlace : (s.put place (.file other)).get? place = some (.file other) := by
    rw [get?_put _ _ _ _ below, if_pos rfl]
  induction h with
  | here place => exact .inl (.here place)
  | stay inside more ih =>
    rcases ih with short | ⟨eq, m, le, leads⟩
    · exact .inl (.stay (keep inside) short)
    · exact .inr ⟨eq, m, le, .stay (keep' inside) leads⟩
  | up inside more ih =>
    rcases ih with short | ⟨eq, m, le, leads⟩
    · exact .inl (.up (keep inside) short)
    · exact .inr ⟨eq, m, le, .up (keep' inside) leads⟩
  | @into n there rest b name node inside found real more ih =>
    by_cases same : there ++ [name] = place
    · subst same
      rcases ends with rfl | ⟨target, m, held, chain⟩
      · obtain ⟨rfl, rfl, rfl⟩ := more.at_end stop
        exact .inr ⟨rfl, 0, by omega, .into (keep' inside) atPlace (by simp [Node.kind]) (.here _)⟩
      · rw [held] at found
        cases found
        exact absurd rfl real
    · rcases ih with short | ⟨eq, m, le, leads⟩
      · refine .inl (.into (keep inside) ?_ real short)
        rw [get?_erase _ _ _ below, if_neg same, found]
      · refine .inr ⟨eq, m, le, .into (keep' inside) ?_ real leads⟩
        rw [get?_put _ _ _ _ below, if_neg same, found]
  | @link n there rest b name target inside found more ih =>
    by_cases same : there ++ [name] = place
    · subst same
      rcases ends with rfl | ⟨target', m, held, chain⟩
      · rw [found] at file
        cases file
      · rw [held] at found
        cases found
        rw [List.dropLast_concat] at chain
        obtain ⟨k, _, tail⟩ := chain.cancel more
        obtain ⟨_, rfl, rfl⟩ := tail.at_end stop
        exact .inr ⟨rfl, 0, by omega, .into (keep' inside) atPlace (by simp [Node.kind]) (.here _)⟩
    · rcases ih with short | ⟨eq, m, le, leads⟩
      · refine .inl (.link (keep inside) ?_ short)
        rw [get?_erase _ _ _ below, if_neg same, found]
      · refine .inr ⟨eq, m + 1, by omega, .link (keep' inside) ?_ leads⟩
        rw [get?_put _ _ _ _ below, if_neg same, found]

end Store

end LicenseHeaders
