import LicenseHeaders.Proofs.WalkInvariants
import LicenseHeaders.Proofs.Rendering
import LicenseHeaders.Proofs.SecondCall

/-!
How a call prints the paths of its files. Each line shows its path as it is, whatever brackets and
backslashes are in it, with one exception: a backslash directly before an opening bracket that begins
no tag is missing.
-/
namespace LicenseHeaders

namespace Relative

theorem fromLast_suffix {mark : Char} {t found : Text} (h : fromLast mark t = some found) :
    found <:+ t := by
  induction t generalizing found with
  | nil => cases h
  | cons c rest ih =>
    rw [fromLast] at h
    split at h
    · rename_i earlier
      cases h
      exact (ih earlier).trans (List.suffix_cons c rest)
    · split at h
      · cases h
        exact List.suffix_refl _
      · cases h

theorem lastPart_suffix (rel : Text) : lastPart rel <:+ rel := by
  unfold lastPart
  split
  · rename_i found eq
    exact (List.drop_suffix 1 found).trans (fromLast_suffix eq)
  · exact List.suffix_refl rel

theorem extension_suffix (rel : Text) : extension rel <:+ rel := by
  unfold extension
  cases found : fromLast '.' ((lastPart rel).dropWhile (· = '.')) with
  | none => exact List.nil_suffix
  | some ext =>
    exact (fromLast_suffix found).trans ((List.dropWhile_suffix _).trans (lastPart_suffix rel))

end Relative

theorem Tally.exists_of_mem_modifiedFiles {outcomes : List Outcome} {path : Text}
    (listed : path ∈ (ofOutcomes outcomes).modifiedFiles) : ∃ o ∈ outcomes, o.path = path := by
  rw [ofOutcomes_eq] at listed
  obtain ⟨o, modified, rfl⟩ := List.mem_map.1 listed
  exact ⟨o, List.mem_of_mem_filter modified, rfl⟩

theorem Language.getLast?_extension {l : Language} {ext : Text} (own : ext ∈ l.extensions) :
    ext ≠ [] ∧ ext.getLast? ≠ some '\\' := by
  revert ext
  cases l <;> decide

theorem Config.getLast?_of_eligible {d : Draft} (derived : d.registry = none) {rel : Text}
    {header : Header} (eligible : (Config.ofDraft d).eligible? rel = some header) :
    rel.getLast? ≠ some '\\' := by
  unfold eligible? at eligible
  split at eligible
  · cases eligible
  · obtain ⟨l, own, _⟩ := (header?_of_draft_eq_some_iff derived).1 eligible
    obtain ⟨written, last⟩ := Language.getLast?_extension own
    obtain ⟨front, whole⟩ := Relative.extension_suffix rel
    rw [← whole, List.getLast?_append_of_ne_nil _ written]
    exact last

namespace Insertion
open Job

variable {c : Config} {refusals : Refusals}

def AllEligible (c : Config) (g : Progress) : Prop :=
  ∀ o ∈ g.journal.outcomes, ∃ header, c.eligible? o.path = some header

theorem AllEligible.report {g g' : Progress} (h : AllEligible c g)
    (silent : g'.journal.outcomes = g.journal.outcomes) {o : Outcome} {header : Header}
    (eligible : c.eligible? o.path = some header) :
    AllEligible c { g' with journal := g'.journal ++ [.reported o] } := by
  intro o' member
  have now : Journal.outcomes (g'.journal ++ [.reported o]) = g.journal.outcomes ++ [o] := by
    rw [← silent]
    simp [Journal.outcomes]
  rw [now, List.mem_append, List.mem_singleton] at member
  obtain earlier | rfl := member
  · exact h o' earlier
  · exact ⟨header, eligible⟩

theorem AllEligible.tell {g : Progress} (h : AllEligible c g) {event : Event}
    (silent : ∀ outcome, event ≠ .reported outcome) :
    AllEligible c { g with journal := g.journal ++ [event] } := by
  have same : (g.journal ++ [event]).outcomes = g.journal.outcomes := by
    cases event with
    | reported outcome => exact absurd rfl (silent outcome)
    | _ => simp [Journal.outcomes]
  intro o member
  rw [same] at member
  exact h o member

theorem AllEligible.settle {g : Progress} (h : AllEligible c g) (p : Path) (rel : Text) :
    AllEligible c (progressOf (settle c refusals p rel g)) := by
  unfold Insertion.settle
  cases eligible : c.eligible? rel with
  | none => exact h
  | some header =>
  have ends := processed c refusals p rel header g
  simp only [bind_apply]
  generalize process c refusals p rel header g = result at ends ⊢
  cases ends with
  | failed => exact h
  | kept | foreseen => exact h.report rfl eligible
  | updated _ _ _ _ done =>
    refine h.report ?_ eligible
    rw [← done.silent]
    simp [Journal.outcomes]

theorem run_eligible {g g' : Progress} {tally : Tally} (h : AllEligible c g)
    (ran : run c refusals g = .ok tally g') : AllEligible c g' := by
  have kept : AllEligible c (progressOf (run c refusals g)) :=
    run_keeps (fun event g silent h => h.tell silent) (fun names g h => h.settle _ _) h
  rwa [ran] at kept

end Insertion

namespace Report
open Markup

section Page

variable (written : Text → Text)

def statusLines (outcomes : List Outcome) : List Text :=
  outcomes.map fun o => written o.path ++ " is " ++ o.status.text

def entries (first : Nat) (paths : List Text) : List Text :=
  (paths.zipIdx first).map fun (path, number) =>
    "  " ++ Text.decimal number ++ ". " ++ written path

/-- A line for each outcome, the summary, and the modified files, if there are any, as a list
numbered from 1. -/
def page (outcomes : List Outcome) : List Text :=
  let tally := Tally.ofOutcomes outcomes
  statusLines written outcomes ++ tally.summary ::
    if tally.modifiedFiles = [] then []
    else "Modified files:" :: entries written 1 tally.modifiedFiles

end Page

theorem plainText_styled (status : Status) {t : Text} (last : t.getLast? ≠ some '\\') :
    plainText ("[" ++ style status ++ "]" ++ escape t ++ "[/]") = faded t := by
  let opening : Text := "[" ++ style status ++ "]"
  let ending : Text := "[/]"
  have styled : tag? (opening ++ []) = some opening := by cases status <;> decide
  have apart : ∀ c, ending.head? = some c → c = '[' := by
    intro c first
    cases first
    rfl
  have silent : plainText ending = [] := by decide
  have behind : plainText (opening ++ (escape t ++ ending)) = faded t := by
    rw [plainText_tag (tag?_append_of styled _), plainText_escape apart last, silent,
      List.append_nil]
  rwa [← List.append_assoc] at behind

theorem outcomeLine_eq (o : Outcome) :
    outcomeLine o = faded o.path ++ " is " ++ o.status.text := by
  have tail : ∀ status : Status, '[' ∉ " is ".toList ++ status.text ∧
      ']' ∉ " is ".toList ++ status.text ∧
      " is ".toList ++ status.text ≠ [] ∧
      (" is ".toList ++ status.text).getLast? ≠ some '\\' := by
    intro status
    cases status <;> decide
  obtain ⟨opens, closes, written, final⟩ := tail o.status
  have last : o.line.getLast? ≠ some '\\' := by
    rw [Outcome.line, List.append_assoc, List.getLast?_append_of_ne_nil _ written]
    exact final
  rw [outcomeLine, plainText_styled o.status last, Outcome.line, List.append_assoc,
    faded_append opens closes, ← List.append_assoc]

theorem numberedLine_eq (number : Nat) {path : Text} (last : path.getLast? ≠ some '\\') :
    numberedLine number path = "  " ++ Text.decimal number ++ ". " ++ faded path := by
  have digits : ∀ c ∈ Text.decimal number, c.isDigit = true := fun c member =>
    Nat.isDigit_of_mem_toDigits (by decide) (by decide) member
  have plain : ∀ c : Char, c.isDigit = false → c ≠ ' ' → c ≠ '.' →
      c ∉ "  ".toList ++ Text.decimal number ++ ". ".toList := by
    intro c noDigit noBlank noDot member
    rw [List.mem_append, List.mem_append] at member
    obtain (blank | digit) | dot := member
    · simp [noBlank] at blank
    · rw [digits c digit] at noDigit
      cases noDigit
    · simp [noBlank, noDot] at dot
  have alone : plainText (escape path ++ []) = faded path ++ [] := plainText_escape (by simp) last
  rw [List.append_nil, List.append_nil] at alone
  rw [numberedLine, plainText_append (plain '\\' rfl (by decide) (by decide))
    (plain '[' rfl (by decide) (by decide)), alone]

theorem numberedFrom_eq (first : Nat) {paths : List Text}
    (last : ∀ path ∈ paths, path.getLast? ≠ some '\\') :
    numberedFrom first paths = entries faded first paths := by
  induction paths generalizing first with
  | nil => rfl
  | cons path paths ih =>
    rw [numberedFrom, numberedLine_eq first (last path (List.mem_cons_self ..)),
      ih (first + 1) fun path member => last path (List.mem_cons_of_mem _ member)]
    rfl

theorem closing_eq {outcomes : List Outcome}
    (last : ∀ path ∈ (Tally.ofOutcomes outcomes).modifiedFiles, path.getLast? ≠ some '\\') :
    outcomes.map outcomeLine ++ closing (.ofOutcomes outcomes) = page faded outcomes := by
  have lines : outcomes.map outcomeLine = statusLines faded outcomes :=
    List.map_congr_left fun o _ => outcomeLine_eq o
  rw [lines, closing, numberedFrom_eq 1 last, page]

theorem entries_congr {written written' : Text → Text} (first : Nat) {paths : List Text}
    (same : ∀ path ∈ paths, written path = written' path) :
    entries written first paths = entries written' first paths := by
  refine List.map_congr_left ?_
  rintro ⟨path, number⟩ member
  dsimp only
  rw [same path (List.fst_mem_of_mem_zipIdx member)]

theorem page_congr {written written' : Text → Text} {outcomes : List Outcome}
    (same : ∀ o ∈ outcomes, written o.path = written' o.path) :
    page written outcomes = page written' outcomes := by
  have lines : statusLines written outcomes = statusLines written' outcomes :=
    List.map_congr_left fun o member => by rw [same o member]
  have modified : ∀ path ∈ (Tally.ofOutcomes outcomes).modifiedFiles,
      written path = written' path := by
    intro path listed
    obtain ⟨o, member, rfl⟩ := Tally.exists_of_mem_modifiedFiles listed
    exact same o member
  rw [page, page, lines, entries_congr 1 modified]

theorem page_faded_eq_iff (outcomes : List Outcome) :
    page faded outcomes = page id outcomes ↔ ∀ o ∈ outcomes, ¬ Loose o.path := by
  constructor
  · intro same o member
    have lines := List.append_inj_left same (by simp [statusLines])
    have line := List.map_inj_left.1 lines o member
    rw [List.append_left_inj, List.append_left_inj] at line
    exact faded_eq_self_iff.1 line
  · intro tight
    exact page_congr fun o member => faded_eq_self_iff.2 (tight o member)

end Report

namespace CommandLine
open Insertion Markup

section Call

variable {around : Surroundings} {s : Store} {arguments : List Text} {verbose : Bool} {r : Request}

/-- A call that has come to its end has printed each path without its loose backslashes, and so it
has printed the paths as they are exactly if they have none. -/
theorem execute_prints (asked : applied? around.environment arguments = some (verbose, r))
    (exit : (execute around s arguments).exit = 0) :
    (execute around s arguments).stdout =
        Report.page faded (execute around s arguments).journal.outcomes ∧
      ((execute around s arguments).stdout =
          Report.page id (execute around s arguments).journal.outcomes ↔
        ∀ o ∈ (execute around s arguments).journal.outcomes, ¬ Loose o.path) := by
  obtain ⟨_, _, license, modeline, tally, g, _, ran, shown⟩ := execute_of_exit asked exit
  have eligible := run_eligible (c := .ofDraft (r.draft around.environment license modeline))
    (g := ⟨s, [.noted (.templateLoaded license.length)]⟩) (by simp [AllEligible, Journal.outcomes]) ran
  obtain ⟨outcomes, reported, rfl⟩ := run_reports ran
  have reported : g.journal.outcomes = outcomes := reported
  have modified : ∀ path ∈ (Tally.ofOutcomes outcomes).modifiedFiles, path.getLast? ≠ some '\\' := by
    intro path listed
    obtain ⟨o, member, rfl⟩ := Tally.exists_of_mem_modifiedFiles listed
    obtain ⟨header, own⟩ := eligible o (reported ▸ member)
    exact Config.getLast?_of_eligible rfl own
  have printed : (execute around s arguments).stdout =
      Report.page faded (execute around s arguments).journal.outcomes := by
    rw [shown]
    change g.journal.outcomes.map Report.outcomeLine ++ Report.closing (Tally.ofOutcomes outcomes) =
      Report.page faded g.journal.outcomes
    rw [reported, Report.closing_eq modified]
  exact ⟨printed, by rw [printed]; exact Report.page_faded_eq_iff _⟩

end Call

def bracketed (name : Name) : Store :=
  ⟨[], [([⟨"license_header", by decide⟩], .file (Utf8.encode "// L\n")),
    ([name], .file (Utf8.encode "x"))]⟩

/-- The bracket begins a tag, and the call shows the name as it is. -/
theorem execute_prints_before_tag :
    let s := bracketed ⟨"a\\[i].c", by decide⟩
    let result := execute {} s ["apply", "--dry-run"]
    result.journal.outcomes = [⟨"a\\[i].c", .wouldUpdate, none⟩] ∧
      result.stdout = Report.page id result.journal.outcomes ∧
      result.stdout = ["a\\[i].c is UPDATED (dry run)".toList, "1 files changed, 0 files ok.",
        "Modified files:", "  1. a\\[i].c"] := by
  intro s result
  have reported : result.journal.outcomes = [⟨"a\\[i].c", .wouldUpdate, none⟩] := by decide +kernel
  have asked : applied? {} ["apply", "--dry-run"] = some (false, { dryRun := true }) := by
    decide +kernel
  have exit : result.exit = 0 := by decide +kernel
  have verbatim : result.stdout = Report.page id result.journal.outcomes := by
    refine (execute_prints asked exit).2.2 ?_
    rw [show (execute {} s ["apply", "--dry-run"]).journal.outcomes = _ from reported]
    intro o member
    rw [List.mem_singleton] at member
    subst member
    exact faded_eq_self_iff.1 (by decide)
  refine ⟨reported, verbatim, ?_⟩
  rw [verbatim, reported]
  decide

/-- The bracket begins no tag, and the call shows the name of another file. -/
theorem execute_misprints_before_bracket :
    let s := bracketed ⟨"a\\[0].c", by decide⟩
    let result := execute {} s ["apply"]
    applied? {} ["apply"] = some (false, {}) ∧ result.exit = 0 ∧
      result.journal.outcomes = [⟨"a\\[0].c", .updated, none⟩] ∧
      result.stdout = ["a[0].c is UPDATED".toList, "1 files changed, 0 files ok.",
        "Modified files:", "  1. a[0].c"] ∧
      result.stdout ≠ Report.page id result.journal.outcomes := by
  decide +kernel

end CommandLine

end LicenseHeaders
