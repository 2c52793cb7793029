import LicenseHeaders.Proofs.Entry
import LicenseHeaders.Proofs.Replacement
import LicenseHeaders.Store.Setup

/-!
What a path opens after its file has been replaced. A replacement that is carried out leaves the new
contents, and one that is not leaves the old ones, unless the temporary name was there before and is
a link. If it leads to the file itself, the file is written over before it is replaced; if it leads
there by way of the path's own entry, the path ends as a link to itself.
-/
namespace LicenseHeaders.Insertion
open Store

/-- The temporary path leads to the file to which the path leads. -/
def SharesFile (s : Store) (p : Path) : Prop :=
  ∃ temporary, p.beside? temporaryEnding = some temporary ∧ s.locate temporary = s.locate p

/-- The temporary path leads to the entry of the path, or would if that were a file itself. -/
def LeadsBack (s : Store) (p : Path) : Prop :=
  ∃ temporary entry, p.beside? temporaryEnding = some temporary ∧ s.slot p = .ok entry ∧
    (s.put entry (.file [])).locate temporary = .ok entry

theorem eq_child_of_beside? {p temporary : Path} (h : p.beside? temporaryEnding = some temporary) :
    ∃ dir : Path, ∃ part, p = dir.child part ∧ temporary = dir.child (part ++ temporaryEnding) := by
  cases last : p.parts.getLast? with
  | none => simp [Path.beside?, last] at h
  | some part =>
    have eq := Path.eq_child last
    rw [eq, Path.beside?_child] at h
    exact ⟨_, part, eq, (Option.some.inj h).symm⟩

theorem slot_child {s : Store} {dir : Path} {spent : Nat} {place : Location} {name : Name}
    (reaches : Reaches s dir spent place) (fits : Fits (dir.child name.text)) :
    s.slot (dir.child name.text) = .ok (place ++ [name]) := by
  have directory := directoryOf_child.2 ⟨fits, spent, reaches⟩
  simp [slot, directory, lastName_child, Step.ofPart_name, entryAt, Name.ofText?_text, bind,
    Except.bind]

theorem read_after_write {s s' : Store} {p dir : Path} {part : Text} {before bytes : Bytes}
    {place : Location} (opens : s.read p = .ok before)
    (wrote : s.write (dir.child part) bytes = .ok (place, s')) :
    (s.locate (dir.child part) = s.locate p → s'.read p = .ok bytes) ∧
      (s.locate (dir.child part) ≠ s.locate p → s'.read p = .ok before) := by
  obtain ⟨_, last, found, file⟩ := read_eq_ok opens
  obtain ⟨fits', found', vacant, rfl⟩ := write_child_eq_ok wrote
  have ext := extends_put vacant bytes
  have below := not_root vacant.not_isDirectory
  have written : (s.put place (.file bytes)).get? place = some (.file bytes) := by
    rw [get?_put _ _ _ _ below, if_pos rfl]
  obtain ⟨fits, n, within, leads⟩ := leads_of_locate found file (by simp [Node.kind])
  have still : (s.put place (.file bytes)).locate p = .ok last :=
    locate_of_leads fits (leads.extend ext) within
  have one : s.locate (dir.child part) = .ok last ↔ place = last := by
    constructor
    · intro there
      obtain ⟨_, m, _, way⟩ := leads_of_locate there file (by simp [Node.kind])
      obtain ⟨k, _, way'⟩ := leads_of_travel ext found' ⟨_, written, by simp [Node.kind]⟩
      rw [show (Route.ofPath (dir.child part)).stepsTo true = (Route.ofPath (dir.child part)).steps
        from rfl] at way'
      exact (way'.unique (way.extend ext)).2
    · intro same
      subst same
      obtain ⟨m, le, way⟩ := leads_of_travel (.refl s) found' ⟨_, file, by simp [Node.kind]⟩
      exact locate_of_leads fits' way le
  rw [found]
  constructor
  · intro shared
    obtain rfl := one.1 shared
    exact read_of_locate still written
  · intro apart
    apply read_of_locate still
    rw [get?_put _ _ _ _ below, if_neg (fun same => apart (one.2 same.symm)), file]

/-- A temporary file that has been written and moved, in a directory reached under all three stores. -/
structure Exchange (s written final : Store) (dir : Path) (source target : Name)
    (before bytes : Bytes) (spent : Nat) (home place : Location) (node : Node) : Prop where
  reaches : Reaches s dir spent home
  reached : Reaches final dir spent home
  opens : s.Opens (home ++ [target]) before
  apart : source ≠ target
  vacant : s.Vacant place
  wrote : written = s.put place (.file bytes)
  way : ∃ n, n ≤ linkLimit - spent ∧ Leads written n home [.into source.text] place
  held : written.get? (home ++ [source]) = some node
  moved : final = (written.erase (home ++ [source])).put (home ++ [target]) node

theorem exchange {s written final : Store} {dir : Path} {part : Text} {before bytes : Bytes}
    {place old new : Location} (opens : s.read (dir.child part) = .ok before)
    (wrote : s.write (dir.child (part ++ temporaryEnding)) bytes = .ok (place, written))
    (move : written.move (dir.child (part ++ temporaryEnding)) (dir.child part) =
      .ok ((old, new), final)) :
    ∃ source target : Name, ∃ spent home node, part = target.text ∧
      part ++ temporaryEnding = source.text ∧
      Exchange s written final dir source target before bytes spent home place node := by
  obtain ⟨spent, home, source, target, node, reaches, fromPart, toPart, rfl, rfl, held, real, free,
    moved⟩ := move_child_eq_ok move
  obtain rfl := Step.text_of_ofPart toPart
  have named := Step.text_of_ofPart fromPart
  rw [named] at wrote
  obtain ⟨_, found, vacant, rfl⟩ := write_child_eq_ok wrote
  have below := not_root vacant.not_isDirectory
  have home₀ : Reaches s dir spent home := by
    refine reaches.same (fun other => ?_) rfl
    by_cases same : other = place
    · refine .inr (.inr ⟨bytes, opens_file ?_⟩)
      rw [get?_put _ _ _ _ below, if_pos same]
    · exact .inl (by rw [get?_put _ _ _ _ below, if_neg same])
  have openedBefore := home₀.opens opens
  obtain ⟨n, le, leads, file⟩ := home₀.opens_written found vacant bytes
  refine ⟨source, target, spent, home, node, rfl, named, home₀, ?_, openedBefore, ?_, vacant, rfl,
    ⟨n, le, leads⟩, held, moved⟩
  · refine reaches.same (fun other => ?_) (by rw [moved]; rfl)
    rw [moved, get?_put _ _ _ _ (by simp), get?_erase _ _ _ (by simp)]
    by_cases atTarget : other = home ++ [target]
    · subst atTarget
      exact .inr (.inr (openedBefore.extend (extends_put vacant bytes)))
    · by_cases atSource : other = home ++ [source]
      · subst atSource
        exact .inr (.inr ⟨bytes, place, leads.endsAt, file⟩)
      · exact .inl (by rw [if_neg atTarget, if_neg atSource])
  · intro same
    subst same
    have longer := congrArg List.length named
    simp [temporaryEnding] at longer

namespace Exchange

variable {s written final : Store} {dir : Path} {source target : Name} {before bytes : Bytes}
variable {spent : Nat} {home place : Location} {node : Node}
variable (h : Exchange s written final dir source target before bytes spent home place node)
include h

theorem other_entry : home ++ [source] ≠ home ++ [target] := by
  simpa using h.apart

theorem get?_final (other : Location) : final.get? other =
    if other = home ++ [target] then some node
    else if other = home ++ [source] then none else written.get? other := by
  rw [h.moved, get?_put _ _ _ _ (by simp), get?_erase _ _ _ (by simp)]

theorem get?_written (other : Location) : written.get? other =
    if other = place then some (.file bytes) else s.get? other := by
  rw [h.wrote, get?_put _ _ _ _ (not_root h.vacant.not_isDirectory)]

theorem grown : Extends s written := by
  rw [h.wrote]
  exact extends_put h.vacant bytes

theorem of_file {contents : Bytes} (file : node = .file contents) :
    place = home ++ [source] ∧ contents = bytes := by
  obtain ⟨n, _, leads⟩ := h.way
  have held := h.held
  rcases leads.endsAt with rfl | ⟨text, _, link, _⟩
  · rw [h.get?_written, if_pos rfl, file] at held
    cases held
    exact ⟨rfl, rfl⟩
  · rw [held, file] at link
    cases link

theorem not_directory : node ≠ .directory := by
  intro kind
  obtain ⟨_, _, leads⟩ := h.way
  have held := h.held
  rw [kind] at held
  rcases leads.endsAt with rfl | ⟨_, _, link, _⟩
  · rw [h.get?_written, if_pos rfl] at held
    cases held
  · rw [held] at link
    cases link

theorem leadsBack_iff (fits : Fits (dir.child target.text)) (fits' : Fits (dir.child source.text))
    (named : target.text ++ temporaryEnding = source.text) :
    LeadsBack s (dir.child target.text) ↔ ∃ n, n ≤ linkLimit - spent ∧
      Leads (s.put (home ++ [target]) (.file [])) n home [.into source.text] (home ++ [target]) := by
  have slot := slot_child h.reaches fits
  have beside := Path.beside?_child dir target.text temporaryEnding
  rw [named] at beside
  have held : (s.put (home ++ [target]) (.file [])).get? (home ++ [target]) = some (.file []) := by
    rw [get?_put _ _ _ _ (by simp), if_pos rfl]
  have reached := h.reaches.put (by simp) (.inr ⟨before, h.opens⟩) (.file [])
  constructor
  · intro given
    obtain ⟨temporary, entry, beside', slot', back⟩ := given
    rw [beside] at beside'
    rw [slot] at slot'
    cases beside'
    cases slot'
    exact reached.leads_child back held (by simp [Node.kind])
  · intro given
    obtain ⟨n, within, leads⟩ := given
    exact ⟨_, _, beside, slot, reached.locate_child fits' leads within⟩

theorem erased_extends :
    Extends ((written.erase (home ++ [target])).erase (home ++ [source])) final := by
  apply extends_of_erase (by simp)
  intro other held notSource found
  rw [get?_erase _ _ _ (by simp)] at found
  split at found
  · cases found
  · rename_i notTarget
    rw [h.get?_final, if_neg notTarget, if_neg notSource, found]

theorem final_erased_extends :
    Extends (final.erase (home ++ [target])) (written.put (home ++ [target]) (.file [])) := by
  apply extends_of_erase (by simp)
  intro other held notTarget found
  rw [h.get?_final, if_neg notTarget] at found
  rw [get?_put _ _ _ _ (by simp), if_neg notTarget]
  split at found
  · cases found
  · exact found

section Link

variable {text : Text} (link : node = .link text)
include link

theorem chain :
    ∃ n, n + 1 ≤ linkLimit - spent ∧ Leads written n (linkStart home text) (linkSteps text) place := by
  obtain ⟨n, le, leads⟩ := h.way
  have held := h.held
  rw [link] at held
  obtain ⟨m, rfl, more⟩ := leads.chain held
  exact ⟨m, le, more⟩

theorem held_before : s.get? (home ++ [source]) = some (.link text) := by
  have held := h.held
  rw [h.get?_written, link] at held
  split at held
  · cases held
  · exact held

theorem held_beside :
    (s.put (home ++ [target]) (.file [])).get? (home ++ [source]) = some (.link text) := by
  rw [get?_put _ _ _ _ (by simp), if_neg h.other_entry, h.held_before link]

theorem held_final : final.get? (home ++ [target]) = some (.link text) := by
  rw [h.get?_final, if_pos rfl, link]

theorem place_ne_source : place ≠ home ++ [source] := by
  intro same
  have held := h.held_before link
  rw [← same] at held
  exact h.vacant.not_link text held

/-- If the path opens a file, there was no way back: the two ways would end at the same entry, and
it would be a file and a link. -/
theorem no_way_back (read : final.read (dir.child target.text) = .ok bytes) (m : Nat) :
    ¬ Leads (s.put (home ++ [target]) (.file [])) m home [.into source.text] (home ++ [target]) := by
  intro back
  obtain ⟨k, _, back⟩ := back.chain (h.held_beside link)
  have held := h.held_final link
  obtain ⟨c, last, way, file⟩ := (h.reached.opens read).of_link held
  have way' := (way.avoid held way (Nat.le_refl c)).extend h.final_erased_extends
  have back' := back.extend (h.grown.put (by simp) (.file []))
  obtain ⟨_, rfl⟩ := way'.unique back'
  rw [held] at file
  cases file

end Link

section Forth

variable {text : Text} {n : Nat}
variable (chain : Leads written n (linkStart home text) (linkSteps text) place)
variable (forth : ∀ m ≤ n, ¬ Leads (s.put (home ++ [target]) (.file [])) m (linkStart home text)
  (linkSteps text) (home ++ [target]))
include chain forth

theorem place_ne_target : place ≠ home ++ [target] := by
  intro same
  have other : Extends written (s.put (home ++ [target]) (.file [])) := by
    intro other held found
    rw [h.get?_written, same] at found
    rw [get?_put _ _ _ _ (by simp)]
    split at found
    · cases found
      exact .inr ⟨rfl, [], if_pos (by assumption)⟩
    · exact .inl (by rwa [if_neg (by assumption)])
  have back := chain.extend other
  rw [same] at back
  exact forth n (Nat.le_refl n) back

theorem chain_apart :
    Leads (written.erase (home ++ [target])) n (linkStart home text) (linkSteps text) place := by
  have notTarget := h.place_ne_target chain forth
  have root := not_root h.vacant.not_isDirectory
  obtain ⟨contents, last, ends, file⟩ := h.opens.extend h.grown
  rcases chain.erase_or ends file [] with survives | ⟨rfl, m, le, leads⟩
  · exact survives
  have there : (written.put (home ++ [target]) (.file [])).get? place = some (.file bytes) := by
    rw [get?_put _ _ _ _ (by simp), if_neg notTarget, h.get?_written, if_pos rfl]
  have unwritten : Extends ((written.put (home ++ [target]) (.file [])).erase place)
      (s.put (home ++ [target]) (.file [])) := by
    apply extends_of_erase root
    intro other held notPlace found
    rw [get?_put _ _ _ _ (by simp), h.get?_written, if_neg notPlace] at found
    rw [get?_put _ _ _ _ (by simp), found]
  rcases leads.erase_or (.inl rfl) there [] with survives | ⟨same, _⟩
  · exact absurd (survives.extend unwritten) (forth m le)
  · exact absurd same.symm notTarget

end Forth

theorem read_iff_of_link (fits : Fits (dir.child target.text)) (fits' : Fits (dir.child source.text))
    (named : target.text ++ temporaryEnding = source.text) {text : Text} (link : node = .link text) :
    final.read (dir.child target.text) = .ok bytes ↔ ¬ LeadsBack s (dir.child target.text) := by
  obtain ⟨n, within, chain⟩ := h.chain link
  rw [h.leadsBack_iff fits fits' named]
  constructor
  · intro read given
    obtain ⟨m, _, back⟩ := given
    exact h.no_way_back link read m back
  · intro none
    have forth : ∀ m ≤ n, ¬ Leads (s.put (home ++ [target]) (.file [])) m (linkStart home text)
        (linkSteps text) (home ++ [target]) := by
      intro m le leads
      have keep : home ≠ home ++ [target] := by simp
      have inside := isDirectory_put (by simp) keep (.file []) h.reaches.inside
      have back : Leads (s.put (home ++ [target]) (.file [])) (m + 1) home [.into source.text]
          (home ++ [target]) := .link inside (h.held_beside link) (by simpa using leads)
      exact none ⟨m + 1, by omega, back⟩
    have apart := h.chain_apart chain forth
    have held : (written.erase (home ++ [target])).get? (home ++ [source]) = some (.link text) := by
      rw [get?_erase _ _ _ (by simp), if_neg h.other_entry, h.held, link]
    have moved := (apart.avoid held apart (Nat.le_refl n)).extend h.erased_extends
    have step : Leads final (n + 1) home [.into target.text] place :=
      .link h.reached.inside (h.held_final link) (by simpa using moved)
    have found : final.get? place = some (.file bytes) := by
      rw [h.get?_final, if_neg (h.place_ne_target chain forth),
        if_neg (h.place_ne_source link), h.get?_written, if_pos rfl]
    exact read_of_locate (h.reached.locate_child fits step within) found

theorem read_iff_of_file (fits : Fits (dir.child target.text)) (fits' : Fits (dir.child source.text))
    (named : target.text ++ temporaryEnding = source.text) {contents : Bytes}
    (file : node = .file contents) :
    final.read (dir.child target.text) = .ok bytes ↔ ¬ LeadsBack s (dir.child target.text) := by
  obtain ⟨rfl, rfl⟩ := h.of_file file
  have held : final.get? (home ++ [target]) = some (.file contents) := by
    rw [h.get?_final, if_pos rfl, file]
  have read := h.reached.read_file fits held
  rw [h.leadsBack_iff fits fits' named]
  constructor
  · intro _ given
    obtain ⟨_, _, back⟩ := given
    rcases back.endsAt with same | ⟨text, _, link, _⟩
    · exact h.other_entry same
    · rw [get?_put _ _ _ _ (by simp), if_neg h.other_entry] at link
      exact h.vacant.not_link text link
  · intro _
    exact read

theorem read_iff (fits : Fits (dir.child target.text)) (fits' : Fits (dir.child source.text))
    (named : target.text ++ temporaryEnding = source.text) :
    final.read (dir.child target.text) = .ok bytes ↔ ¬ LeadsBack s (dir.child target.text) := by
  cases kind : node with
  | file contents => exact h.read_iff_of_file fits fits' named kind
  | link text => exact h.read_iff_of_link fits fits' named kind
  | directory => exact absurd kind h.not_directory

end Exchange

theorem read_after_move {s written final : Store} {p temporary : Path} {before bytes : Bytes}
    {place old new : Location} (opens : s.read p = .ok before)
    (beside : p.beside? temporaryEnding = some temporary)
    (wrote : s.write temporary bytes = .ok (place, written))
    (move : written.move temporary p = .ok ((old, new), final)) :
    final.read p = .ok bytes ↔ ¬ LeadsBack s p := by
  obtain ⟨dir, part, rfl, rfl⟩ := eq_child_of_beside? beside
  obtain ⟨source, target, spent, home, node, rfl, named, exchange⟩ := exchange opens wrote move
  obtain ⟨fits, _⟩ := read_eq_ok opens
  obtain ⟨fits', _⟩ := write_child_eq_ok wrote
  rw [named] at fits'
  exact exchange.read_iff fits fits' named

theorem read_without_move {s written : Store} {p temporary : Path} {before bytes : Bytes}
    {place : Location} (opens : s.read p = .ok before)
    (beside : p.beside? temporaryEnding = some temporary)
    (wrote : s.write temporary bytes = .ok (place, written)) :
    written.read p = .ok before ↔ ¬ SharesFile s p ∨ bytes = before := by
  obtain ⟨dir, part, rfl, rfl⟩ := eq_child_of_beside? beside
  have shares : SharesFile s (dir.child part) ↔
      s.locate (dir.child (part ++ temporaryEnding)) = s.locate (dir.child part) := by
    constructor
    · intro given
      obtain ⟨temporary, beside', same⟩ := given
      rw [beside] at beside'
      cases beside'
      exact same
    · intro same
      exact ⟨_, beside, same⟩
  obtain ⟨through, past⟩ := read_after_write opens wrote
  rw [shares]
  by_cases same : s.locate (dir.child (part ++ temporaryEnding)) = s.locate (dir.child part)
  · rw [through same]
    simp [same]
  · rw [past same]
    simp [same]

/-- What a path opens after its file was to be replaced: the new contents if that was done, unless
the temporary path led back to the entry itself; the old ones if it failed, unless the temporary
path led to the same file; and always the old ones if the temporary file could not be written. -/
theorem read_after_replace (refusals : Refusals) (p : Path) (content : SourceText) (g : Progress)
    (before : Bytes) (opens : g.store.read p = .ok before) :
    match replace refusals p content g with
    | .ok none g' => g'.store.read p = .ok content.toBytes ↔ ¬ LeadsBack g.store p
    | .ok (some _) g' =>
      g'.store.read p = .ok before ↔ ¬ SharesFile g.store p ∨ content.toBytes = before
    | .error _ g' => g'.store.read p = .ok before := by
  have ends := replaced refusals p content g
  generalize replace refusals p content g = result at ends ⊢
  cases ends with
  | unwritten => exact opens
  | refused beside wrote => exact read_without_move opens beside wrote
  | stuck beside wrote => exact read_without_move opens beside wrote
  | moved beside wrote allow move => exact read_after_move opens beside wrote move

def linkedBeside (target : Text) (contents : Bytes) : Store where
  base := []
  nodes := [([⟨"a.c", by decide⟩], .file contents), ([⟨"a.c.new", by decide⟩], .link target)]

theorem read_after_replace_beside_link :
    (linkedBeside "b" [111]).read (.ofText "/a.c") = .ok [111] ∧
      match replace (fun _ => none) (.ofText "/a.c") [.raw 110] ⟨linkedBeside "b" [111], []⟩ with
      | .ok none g' => g'.store.read (.ofText "/a.c") = .ok (SourceText.toBytes [.raw 110]) ↔
          ¬ LeadsBack (linkedBeside "b" [111]) (.ofText "/a.c")
      | .ok (some _) g' => g'.store.read (.ofText "/a.c") = .ok [111] ↔
          ¬ SharesFile (linkedBeside "b" [111]) (.ofText "/a.c") ∨
            SourceText.toBytes [.raw 110] = [111]
      | .error _ g' => g'.store.read (.ofText "/a.c") = .ok [111] := by
  have opens : (linkedBeside "b" [111]).read (.ofText "/a.c") = .ok [111] := by decide +kernel
  exact ⟨opens, read_after_replace (fun _ => none) (.ofText "/a.c") [.raw 110]
    ⟨linkedBeside "b" [111], []⟩ [111] opens⟩

/-- If the link leads to the file beside it, the replaced file cannot be opened any more, and one
that could not be replaced is written over all the same. -/
theorem replace_through_link_to_file :
    (linkedBeside "a.c" [111]).read (.ofText "/a.c") = .ok [111] ∧
      replace (fun _ => none) (.ofText "/a.c") [.raw 110] ⟨linkedBeside "a.c" [111], []⟩ =
        .ok none ⟨⟨[], [([⟨"a.c", by decide⟩], .link "a.c")]⟩,
          [.wrote [⟨"a.c", by decide⟩] [110],
            .moved [⟨"a.c.new", by decide⟩] [⟨"a.c", by decide⟩]]⟩ ∧
      read ⟨[], [([⟨"a.c", by decide⟩], .link "a.c")]⟩ (.ofText "/a.c") = .error .tooManyLinks ∧
      replace (fun _ => some ⟨13, []⟩) (.ofText "/a.c") [.raw 110] ⟨linkedBeside "a.c" [111], []⟩ =
        .ok (some ⟨.ofText "/a.c.new", .ofText "/a.c", .coded 13 [] .nothing⟩)
          ⟨linkedBeside "a.c" [110], [.wrote [⟨"a.c", by decide⟩] [110]]⟩ ∧
      (linkedBeside "a.c" [110]).read (.ofText "/a.c") = .ok [110] := by
  decide +kernel

end LicenseHeaders.Insertion
