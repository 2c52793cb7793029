import LicenseHeaders.Proofs.Travel

/-!
Reading, writing and moving the entries of one directory. A path that leads to a directory is
followed once; what its children denote then depends on the entry of that name alone, and on how
many links may still be followed. Writing goes through a link, moving does not.
-/
namespace LicenseHeaders

theorem Route.ofPath_child (p : Path) (part : Text) :
    Route.ofPath (p.child part) =
      { Route.ofPath p with steps := (Route.ofPath p).steps ++ [Step.ofPart part] } := by
  simp only [Route.ofPath, Path.child, List.map_append, List.map_cons, List.map_nil]
  rfl

theorem Path.beside?_child (p : Path) (part ending : Text) :
    (p.child part).beside? ending = some (p.child (part ++ ending)) := by
  simp [Path.beside?, Path.child]

theorem Path.eq_child {p : Path} {part : Text} (last : p.parts.getLast? = some part) :
    p = Path.child { p with parts := p.parts.dropLast } part := by
  obtain ⟨before, eq⟩ := List.getLast?_eq_some_iff.1 last
  cases p
  simp_all [Path.child]

theorem Text.mem_intercalate {glue : Text} {pieces : List Text} {c : Char}
    (h : c ∈ glue.intercalate pieces) : c ∈ glue ∨ ∃ piece ∈ pieces, c ∈ piece := by
  induction pieces with
  | nil => cases h
  | cons piece rest ih =>
    by_cases last : rest = []
    · subst last
      rw [List.intercalate_singleton] at h
      exact .inr ⟨piece, by simp, h⟩
    · rw [List.intercalate_cons_of_ne_nil last, List.append_assoc, List.mem_append,
        List.mem_append] at h
      rcases h with here | between | later
      · exact .inr ⟨piece, by simp, here⟩
      · exact .inl between
      · rcases ih later with between | ⟨other, member, inside⟩
        · exact .inl between
        · exact .inr ⟨other, List.mem_cons_of_mem _ member, inside⟩

theorem Path.mem_toText {p : Path} {c : Char} (h : c ∈ p.toText) (dot : c ≠ '.') (slash : c ≠ '/') :
    ∃ part ∈ p.parts, c ∈ part := by
  unfold toText at h
  split at h
  · exact absurd (List.mem_singleton.1 h) dot
  · rcases List.mem_append.1 h with start | parts
    · cases anchor : p.anchor <;> simp [anchor, Anchor.text, slash] at start
    · exact (Text.mem_intercalate parts).resolve_left (by simpa using slash)

namespace Store

def Fits (p : Path) : Prop := Utf8.size p.toText < pathLimit

instance (p : Path) : Decidable (Fits p) := inferInstanceAs (Decidable (_ < _))

theorem locate_eq (s : Store) (p : Path) :
    s.locate p = if Fits p then s.follow false (.ofPath p) else .error .nameTooLong := by
  unfold locate refuseLong Fits
  split <;> rename_i fits <;> simp only [fits, if_true, if_false] <;> rfl

theorem locateForWriting_eq (s : Store) (p : Path) :
    s.locateForWriting p = if Fits p then s.follow true (.ofPath p) else .error .nameTooLong := by
  unfold locateForWriting refuseLong Fits
  split <;> rename_i fits <;> simp only [fits, if_true, if_false] <;> rfl

theorem locate_of_leads {s : Store} {p : Path} {n : Nat} {place : Location} (fits : Fits p)
    (leads : s.Leads n ((Route.ofPath p).start s.base) (Route.ofPath p).steps place)
    (within : n ≤ linkLimit) : s.locate p = .ok place := by
  have way := leads.travel false linkLimit [] (.inl rfl)
  rw [List.append_nil, if_pos within, travel_nil] at way
  rw [locate_eq, if_pos fits]
  exact way

theorem leads_of_locate {s : Store} {p : Path} {place : Location} {node : Node}
    (h : s.locate p = .ok place) (held : s.get? place = some node) (real : node.kind ≠ .link) :
    Fits p ∧ ∃ n, n ≤ linkLimit ∧
      s.Leads n ((Route.ofPath p).start s.base) (Route.ofPath p).steps place := by
  rw [locate_eq] at h
  split at h
  case isFalse => cases h
  case isTrue fits => exact ⟨fits, leads_of_travel (.refl s) h ⟨node, held, real⟩⟩

/-- The path leads to a directory, and this many links are followed on the way. -/
structure Reaches (s : Store) (p : Path) (spent : Nat) (place : Location) : Prop where
  leads : s.Leads spent ((Route.ofPath p).start s.base) (Route.ofPath p).steps place
  within : spent ≤ linkLimit
  inside : s.IsDirectory place

theorem Reaches.unique {s : Store} {p : Path} {n m : Nat} {a b : Location}
    (first : Reaches s p n a) (second : Reaches s p m b) : n = m ∧ a = b :=
  first.leads.unique second.leads

theorem reaches_of_locate {s : Store} {p : Path} {place : Location} (h : s.locate p = .ok place)
    (inside : s.IsDirectory place) : ∃ spent, Reaches s p spent place := by
  obtain ⟨_, spent, le, leads⟩ := leads_of_locate h inside (by simp [Node.kind])
  exact ⟨spent, leads, le, inside⟩

theorem Reaches.locate {s : Store} {p : Path} {spent : Nat} {place : Location}
    (h : Reaches s p spent place) (fits : Fits p) : s.locate p = .ok place :=
  locate_of_leads fits h.leads h.within

theorem Reaches.same {s s' : Store} {p : Path} {spent : Nat} {place : Location}
    (h : Reaches s p spent place) (same : SameDirectories s s') (base : s'.base = s.base) :
    Reaches s' p spent place :=
  ⟨base ▸ h.leads.to_directory same h.inside, h.within, same.isDirectory h.inside⟩

theorem Reaches.put {s : Store} {p : Path} {spent : Nat} {place other : Location}
    (h : Reaches s p spent place) (below : other ≠ [])
    (free : s.get? other = none ∨ ∃ contents, s.Opens other contents) (node : Node) :
    Reaches (s.put other node) p spent place := by
  refine h.same (fun there => ?_) rfl
  rw [get?_put _ _ _ _ below]
  by_cases same : there = other
  · subst same
    exact .inr free
  · exact .inl (if_neg same)

theorem Reaches.child {s : Store} {p : Path} {spent : Nat} {place : Location}
    (h : Reaches s p spent place) {name : Name} (inside : s.IsDirectory (place ++ [name])) :
    Reaches s (p.child name.text) spent (place ++ [name]) := by
  refine ⟨?_, h.within, inside⟩
  rw [Route.ofPath_child, Step.ofPart_name]
  exact h.leads.append (.into h.inside inside (by simp [Node.kind]) (.here _))

theorem Reaches.follow_child {s : Store} {p : Path} {spent : Nat} {place : Location}
    (h : Reaches s p spent place) (creating : Bool) (part : Text) :
    s.follow creating (.ofPath (p.child part)) =
      s.travel creating (linkLimit - spent) place [Step.ofPart part] := by
  rw [Route.ofPath_child]
  exact (h.leads.travel creating linkLimit [Step.ofPart part] (.inr (by simp))).trans
    (if_pos h.within)

theorem Reaches.follow_name {s : Store} {p : Path} {spent : Nat} {place : Location}
    (h : Reaches s p spent place) (creating : Bool) (name : Name) :
    s.follow creating (.ofPath (p.child name.text)) =
      match s.get? (place ++ [name]) with
      | none => if creating then .ok (place ++ [name]) else .error .notFound
      | some (.link target) => s.onLink creating (linkLimit - spent) place target []
      | some _ => .ok (place ++ [name]) := by
  rw [h.follow_child, Step.ofPart_name, travel_into h.inside]
  rcases s.get? (place ++ [name]) with _ | _ | _ | _ <;> simp

theorem read_eq_ok {s : Store} {p : Path} {contents : Bytes} (h : s.read p = .ok contents) :
    Fits p ∧ ∃ place, s.locate p = .ok place ∧ s.get? place = some (.file contents) := by
  unfold read at h
  cases found : s.locate p with
  | error cause => simp [found, bind, Except.bind] at h
  | ok place =>
    simp only [found, bind, Except.bind] at h
    rw [locate_eq] at found
    split at found
    case isFalse => cases found
    case isTrue fits =>
      split at h <;> cases h
      exact ⟨fits, place, rfl, by assumption⟩

theorem Leads.plain {s : Store} {n : Nat} {a b : Location} {steps : List Step}
    (h : s.Leads n a steps b) {part : Text} (member : Step.into part ∈ steps) : '\x00' ∉ part := by
  induction h with
  | here place => cases member
  | stay inside more ih => exact ih (by simpa using member)
  | up inside more ih => exact ih (by simpa using member)
  | @into n place rest other name node inside found real more ih =>
    rcases List.mem_cons.1 member with same | later
    · cases same
      exact name.isName.2.2.2.2.1
    · exact ih later
  | @link n place rest other name target inside found more ih =>
    rcases List.mem_cons.1 member with same | later
    · cases same
      exact name.isName.2.2.2.2.1
    · exact ih (List.mem_append_right _ later)

theorem plain_of_locate {s : Store} {p : Path} {place : Location} {node : Node}
    (h : s.locate p = .ok place) (held : s.get? place = some node) (real : node.kind ≠ .link) :
    '\x00' ∉ p.toText := by
  intro null
  obtain ⟨_, _, _, leads⟩ := leads_of_locate h held real
  obtain ⟨part, member, inside⟩ := Path.mem_toText null (by decide) (by decide)
  have step : Step.ofPart part = .into part := by
    have named : part ≠ [] ∧ part ≠ ['.'] ∧ part ≠ ['.', '.'] := by
      refine ⟨?_, ?_, ?_⟩ <;> intro same <;> simp [same] at inside
    simp [Step.ofPart, named]
  exact leads.plain (step ▸ List.mem_map_of_mem member) inside

theorem read_of_locate {s : Store} {p : Path} {place : Location} {contents : Bytes}
    (found : s.locate p = .ok place) (file : s.get? place = some (.file contents)) :
    s.read p = .ok contents := by
  simp [read, found, file, bind, Except.bind, pure, Except.pure]

theorem not_root {s : Store} {place : Location} (h : ¬ s.IsDirectory place) : place ≠ [] := by
  intro same
  subst same
  exact h s.root_isDirectory

/-- Whether a file may be written at a place: nothing but a file is there. -/
def Vacant (s : Store) (place : Location) : Prop :=
  s.get? place = none ∨ ∃ contents, s.get? place = some (.file contents)

theorem Vacant.not_isDirectory {s : Store} {place : Location} (h : s.Vacant place) :
    ¬ s.IsDirectory place := by
  rcases h with missing | ⟨contents, file⟩
  · simp [IsDirectory, missing]
  · simp [IsDirectory, file]

theorem Vacant.not_link {s : Store} {place : Location} (h : s.Vacant place) (target : Text) :
    s.get? place ≠ some (.link target) := by
  rcases h with missing | ⟨contents, file⟩
  · simp [missing]
  · simp [file]

theorem Vacant.missing_or_opens {s : Store} {place : Location} (h : s.Vacant place) :
    s.get? place = none ∨ ∃ contents, s.Opens place contents := by
  rcases h with missing | ⟨contents, file⟩
  · exact .inl missing
  · exact .inr ⟨contents, opens_file file⟩

theorem extends_put {s : Store} {place : Location} (vacant : s.Vacant place) (contents : Bytes) :
    Extends s (s.put place (.file contents)) := by
  intro other node found
  rw [get?_put _ _ _ _ (not_root vacant.not_isDirectory)]
  by_cases same : other = place
  · subst same
    rcases vacant with missing | ⟨old, file⟩
    · rw [found] at missing
      cases missing
    · rw [found] at file
      cases file
      exact .inr ⟨rfl, contents, if_pos rfl⟩
  · exact .inl (by rw [if_neg same, found])

theorem write_child_eq_ok {s s' : Store} {dir : Path} {part : Text} {contents : Bytes}
    {place : Location} (h : s.write (dir.child part) contents = .ok (place, s')) :
    Fits (dir.child part) ∧ s.follow true (.ofPath (dir.child part)) = .ok place ∧
      s.Vacant place ∧ s' = s.put place (.file contents) := by
  unfold write at h
  rw [locateForWriting_eq] at h
  split at h
  case isFalse => cases h
  case isTrue fits =>
    cases found : s.follow true (.ofPath (dir.child part)) with
    | error cause => simp [found, bind, Except.bind] at h
    | ok other =>
      simp only [found, bind, Except.bind] at h
      split at h
      case h_1 => cases h
      case h_2 notDirectory =>
        cases h
        refine ⟨fits, rfl, ?_, rfl⟩
        rw [Route.ofPath_child] at found
        rcases travel_creating found (.inl (by simp [Route.stepsTo, Route.ofPath])) with
          missing | ⟨node, held, real⟩
        · exact .inl missing
        · cases node with
          | file contents => exact .inr ⟨contents, held⟩
          | directory => exact absurd held notDirectory
          | link target => exact absurd rfl real

theorem Leads.endsAt {s : Store} {n : Nat} {place other : Location} {name : Name}
    (h : Leads s n place [.into name.text] other) : s.EndsAt (place ++ [name]) other := by
  generalize text : name.text = part at h
  cases h with
  | into _ found _ more =>
    obtain rfl := Name.text_injective text
    cases more
    exact .inl rfl
  | link _ found more =>
    obtain rfl := Name.text_injective text
    exact .inr ⟨_, _, found, by simpa using more⟩

theorem Leads.chain {s : Store} {n : Nat} {place other : Location} {name : Name} {target : Text}
    (h : Leads s n place [.into name.text] other)
    (held : s.get? (place ++ [name]) = some (.link target)) :
    ∃ m, n = m + 1 ∧ Leads s m (linkStart place target) (linkSteps target) other := by
  generalize named : name.text = part at h
  cases h with
  | into _ found real _ =>
    obtain rfl := Name.text_injective named
    rw [held] at found
    cases found
    exact absurd rfl real
  | @link m _ _ _ _ _ _ found more =>
    obtain rfl := Name.text_injective named
    rw [held] at found
    cases found
    rw [List.append_nil] at more
    exact ⟨m, rfl, more⟩

theorem Reaches.locate_child {s : Store} {dir : Path} {spent n : Nat} {place other : Location}
    (h : Reaches s dir spent place) {name : Name} (fits : Fits (dir.child name.text))
    (leads : Leads s n place [.into name.text] other) (within : n ≤ linkLimit - spent) :
    s.locate (dir.child name.text) = .ok other := by
  have way := h.leads.append leads
  rw [← Step.ofPart_name] at way
  have whole : s.Leads (spent + n) ((Route.ofPath (dir.child name.text)).start s.base)
      (Route.ofPath (dir.child name.text)).steps other := by
    rw [Route.ofPath_child]
    exact way
  have le := h.within
  exact locate_of_leads fits whole (by omega)

theorem Reaches.leads_child {s : Store} {dir : Path} {spent : Nat} {place other : Location}
    (h : Reaches s dir spent place) {name : Name} {node : Node}
    (found : s.locate (dir.child name.text) = .ok other) (held : s.get? other = some node)
    (real : node.kind ≠ .link) :
    ∃ n, n ≤ linkLimit - spent ∧ Leads s n place [.into name.text] other := by
  rw [locate_eq] at found
  split at found
  case isFalse => cases found
  case isTrue =>
    rw [h.follow_child, Step.ofPart_name] at found
    exact leads_of_travel (.refl s) found ⟨node, held, real⟩

theorem Reaches.opens {s : Store} {dir : Path} {spent : Nat} {place : Location}
    (h : Reaches s dir spent place) {name : Name} {contents : Bytes}
    (read : s.read (dir.child name.text) = .ok contents) : s.Opens (place ++ [name]) contents := by
  obtain ⟨_, other, found, file⟩ := read_eq_ok read
  obtain ⟨n, _, leads⟩ := h.leads_child found file (by simp [Node.kind])
  exact ⟨other, leads.endsAt, file⟩

theorem Reaches.read_file {s : Store} {dir : Path} {spent : Nat} {place : Location}
    (h : Reaches s dir spent place) {name : Name} {contents : Bytes}
    (fits : Fits (dir.child name.text))
    (file : s.get? (place ++ [name]) = some (.file contents)) :
    s.read (dir.child name.text) = .ok contents := by
  have found : s.locate (dir.child name.text) = .ok (place ++ [name]) := by
    rw [locate_eq, if_pos fits, h.follow_name, file]
  exact read_of_locate found file

theorem Reaches.opens_written {s : Store} {dir : Path} {spent : Nat} {place other : Location}
    (h : Reaches s dir spent place) {name : Name}
    (found : s.follow true (.ofPath (dir.child name.text)) = .ok other) (vacant : s.Vacant other)
    (contents : Bytes) :
    ∃ n, n ≤ linkLimit - spent ∧
      Leads (s.put other (.file contents)) n place [.into name.text] other ∧
      (s.put other (.file contents)).get? other = some (.file contents) := by
  have file : (s.put other (.file contents)).get? other = some (.file contents) := by
    rw [get?_put _ _ _ _ (not_root vacant.not_isDirectory), if_pos rfl]
  rw [h.follow_child, Step.ofPart_name] at found
  obtain ⟨n, le, leads⟩ :=
    leads_of_travel (extends_put vacant contents) found ⟨_, file, by simp [Node.kind]⟩
  exact ⟨n, le, leads, file⟩

theorem directoryOf_child {s : Store} {dir : Path} {part : Text} {place : Location} :
    s.directoryOf (dir.child part) = .ok place ↔
      Fits (dir.child part) ∧ ∃ spent, Reaches s dir spent place := by
  have parent : ({ dir.child part with parts := (dir.child part).parts.dropLast } : Path) = dir := by
    simp [Path.child]
  unfold directoryOf refuseLong
  rw [parent]
  constructor
  · intro h
    split at h
    case isFalse => cases h
    case isTrue fits =>
      refine ⟨fits, ?_⟩
      cases found : s.follow false (.ofPath dir) with
      | error cause => simp [found, bind, Except.bind] at h
      | ok other =>
        simp only [found, bind, Except.bind] at h
        split at h
        case isFalse => cases h
        case isTrue inside =>
          cases h
          obtain ⟨spent, le, leads⟩ :=
            leads_of_travel (.refl s) found ⟨_, inside, by simp [Node.kind]⟩
          exact ⟨spent, leads, le, inside⟩
  · intro given
    obtain ⟨fits, spent, reaches⟩ := given
    have way := reaches.leads.travel false linkLimit [] (.inl rfl)
    rw [List.append_nil, if_pos reaches.within, travel_nil] at way
    have found : s.follow false (.ofPath dir) = .ok place := way
    have inside : s.get? place = some .directory := reaches.inside
    have fits' : Utf8.size (dir.child part).toText < pathLimit := fits
    simp [fits', found, inside, bind, Except.bind, pure, Except.pure]

theorem lastName_child (dir : Path) (part : Text) :
    lastName (dir.child part) =
      match Step.ofPart part with
      | .into part => .ok part
      | _ => .error .busy := by
  simp only [lastName, Path.child, List.getLast?_concat, Option.map_some]
  cases Step.ofPart part <;> rfl

theorem move_child_eq_ok {s s' : Store} {dir : Path} {a b : Text} {old new : Location}
    (h : s.move (dir.child a) (dir.child b) = .ok ((old, new), s')) :
    ∃ spent place, ∃ source target : Name, ∃ node, Reaches s dir spent place ∧
      Step.ofPart a = .into source.text ∧ Step.ofPart b = .into target.text ∧
      old = place ++ [source] ∧ new = place ++ [target] ∧ s.get? old = some node ∧
      node.kind ≠ .directory ∧ ¬ s.IsDirectory new ∧ s' = (s.erase old).put new node := by
  unfold move at h
  cases found : s.directoryOf (dir.child a) with
  | error cause => simp [found, bind, Except.bind] at h
  | ok place =>
  cases found' : s.directoryOf (dir.child b) with
  | error cause => simp [found, found', bind, Except.bind] at h
  | ok place' =>
  obtain ⟨_, spent, reaches⟩ := directoryOf_child.1 found
  obtain ⟨_, spent', reaches'⟩ := directoryOf_child.1 found'
  obtain ⟨rfl, rfl⟩ := reaches.unique reaches'
  simp only [found, found', bind, Except.bind, lastName_child, entryAt] at h
  cases stepA : Step.ofPart a with
  | stay | up => simp [stepA] at h
  | into partA =>
  cases stepB : Step.ofPart b with
  | stay | up => simp [stepA, stepB] at h
  | into partB =>
  cases namedA : Name.ofText? partA with
  | none => simp [stepA, stepB, namedA] at h
  | some source =>
  simp only [stepA, stepB, namedA] at h
  split at h
  · cases h
  · cases h
  · rename_i node notDirectory held
    cases namedB : Name.ofText? partB with
    | none => simp [namedB] at h
    | some target =>
    simp only [namedB] at h
    split at h
    · cases h
    · rename_i free
      cases h
      refine ⟨spent, place, source, target, node, reaches, ?_, ?_, rfl, rfl, held, ?_, free, rfl⟩
      · rw [Name.text_of_ofText? namedA]
      · rw [Name.text_of_ofText? namedB]
      · intro directory
        cases node with
        | directory => exact notDirectory rfl
        | file | link => cases directory

theorem Reaches.move {s : Store} {dir : Path} {spent : Nat} {place : Location}
    (h : Reaches s dir spent place) {source target : Name} {node : Node}
    (fits : Fits (dir.child source.text)) (fits' : Fits (dir.child target.text))
    (held : s.get? (place ++ [source]) = some node) (real : node.kind ≠ .directory)
    (free : ¬ s.IsDirectory (place ++ [target])) :
    s.move (dir.child source.text) (dir.child target.text) =
      .ok ((place ++ [source], place ++ [target]),
        (s.erase (place ++ [source])).put (place ++ [target]) node) := by
  have first := directoryOf_child.2 ⟨fits, spent, h⟩
  have second := directoryOf_child.2 ⟨fits', spent, h⟩
  unfold Store.move
  simp only [first, second, bind, Except.bind, lastName_child, Step.ofPart_name, entryAt,
    Name.ofText?_text, held]
  cases node with
  | directory => exact absurd rfl real
  | file | link => exact if_neg free

end Store

end LicenseHeaders
