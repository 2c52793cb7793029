import LicenseHeaders.Proofs.SteadyDirectories

/-!
The course of a job, event by event. The journal tells of every change of the store, so the store of
each moment follows from the first one and the events up to that moment. While a file gets its
header, the directories and the ways to them stay the same at each of these moments.
-/
namespace LicenseHeaders

namespace Journal

theorem listings_append (j j' : Journal) : listings (j ++ j') = j.listings ++ j'.listings := by
  simp [listings]

end Journal

namespace Store

def after (s : Store) : Event → Store
  | .wrote place contents => s.put place (.file contents)
  | .moved source target =>
    match s.get? source with
    | some node => (s.erase source).put target node
    | none => s
  | .listed _ | .noted _ | .reported _ => s

def replay (s : Store) (j : Journal) : Store := j.foldl after s

theorem replay_append (s : Store) (j j' : Journal) : s.replay (j ++ j') = (s.replay j).replay j' :=
  List.foldl_append

/-- The events lead from one store to the other, and all directories stay on the way. -/
structure Course (s : Store) (j : Journal) (s' : Store) : Prop where
  whole : s.replay j = s'
  steady : ∀ part, part <+: j → Steady s (s.replay part)

namespace Course

variable {s s' s'' : Store} {j j' : Journal}

theorem refl (s : Store) : Course s [] s := by
  refine ⟨rfl, fun part begins => ?_⟩
  rw [List.prefix_nil.1 begins]
  exact .refl s

theorem one {event : Event} (change : s.after event = s') (steady : Steady s s') :
    Course s [event] s' := by
  subst change
  refine ⟨rfl, fun part begins => ?_⟩
  rcases List.prefix_cons_iff.1 begins with rfl | ⟨rest, rfl, nothing⟩
  · exact .refl s
  · rw [List.prefix_nil.1 nothing]
    exact steady

theorem last (h : Course s j s') : Steady s s' := h.whole ▸ h.steady j (List.prefix_refl j)

theorem append (h : Course s j s') (h' : Course s' j' s'') : Course s (j ++ j') s'' := by
  refine ⟨by rw [replay_append, h.whole, h'.whole], fun part begins => ?_⟩
  rcases List.prefix_or_prefix_of_prefix begins (List.prefix_append j j') with early | late
  · exact h.steady part early
  · obtain ⟨rest, rfl⟩ := late
    rw [replay_append, h.whole]
    exact h.last.trans (h'.steady rest ((List.prefix_append_right_inj j).1 begins))

theorem told (h : Course s j s') {event : Event} (word : s'.after event = s') :
    Course s (j ++ [event]) s' :=
  h.append (.one word (.refl s'))

end Course

end Store

namespace Job

/-- What has happened since is a course of events in which no directory is listed. -/
def Proceeds {α : Type} (g : Progress) (result : EStateM.Result Fault Progress α) : Prop :=
  ∃ new, (progressOf result).journal = g.journal ++ new ∧ new.listings = [] ∧
    Store.Course g.store new (progressOf result).store

theorem proceeds_of_same {α : Type} {g : Progress} {result : EStateM.Result Fault Progress α}
    (same : progressOf result = g) : Proceeds g result :=
  ⟨[], by simp [same], rfl, same ▸ .refl _⟩

end Job

namespace Insertion
open Store Job

variable {c : Config} {refusals : Refusals} {p : Path} {rel : Text} {g g' : Progress}

theorem write_course {dir : Path} {part : Text} {bytes : Bytes} {s written : Store} {place : Location}
    (wrote : s.write (dir.child part) bytes = .ok (place, written)) :
    Course s [.wrote place bytes] written := by
  obtain ⟨_, _, vacant, rfl⟩ := write_child_eq_ok wrote
  exact .one rfl (vacant.steady bytes)

theorem write_steady {dir : Path} {part : Text} {bytes : Bytes}
    (ran : Job.write (dir.child part) bytes g = .ok () g') : Steady g.store g'.store := by
  rw [Job.write_apply] at ran
  split at ran
  · cases ran
  · split at ran
    · rename_i wrote
      cases ran
      exact (write_course wrote).last
    · cases ran

theorem Replaced.course {before bytes : Bytes} {failure : Option FailedMove}
    (opens : g.store.read p = .ok before) (h : Replaced refusals p bytes g (.ok failure g')) :
    ∃ new, g'.journal = g.journal ++ new ∧ new.listings = [] ∧ Course g.store new g'.store := by
  cases h with
  | @refused _ place _ _ beside wrote | @stuck _ place _ _ beside wrote =>
    obtain ⟨dir, part, rfl, rfl⟩ := eq_child_of_beside? beside
    exact ⟨[.wrote place bytes], rfl, rfl, write_course wrote⟩
  | @moved _ place old new _ _ beside wrote allow move =>
    obtain ⟨dir, part, rfl, rfl⟩ := eq_child_of_beside? beside
    obtain ⟨_, _, _, _, _, _, _, exchange⟩ := exchange opens wrote move
    obtain ⟨_, _, _, _, node, _, _, _, _, _, held, _, _, moved⟩ := move_child_eq_ok move
    have step : Course _ [.moved old new] _ := .one (by simp [after, held, moved]) exchange.steady
    exact ⟨[.wrote place bytes] ++ [.moved old new], List.append_assoc .., rfl,
      (write_course wrote).append step⟩

theorem settle_proceeds (c : Config) (refusals : Refusals) (p : Path) (rel : Text) (g : Progress) :
    Proceeds g (settle c refusals p rel g) := by
  unfold settle
  cases c.eligible? rel with
  | none => exact proceeds_of_same rfl
  | some header =>
    have ends := processed c refusals p rel header g
    simp only [Job.bind_apply]
    generalize process c refusals p rel header g = result at ends ⊢
    cases ends with
    | failed => exact proceeds_of_same rfl
    | kept | foreseen => exact ⟨[.reported _], rfl, rfl, (Course.refl _).told rfl⟩
    | @updated _ failure g' _ read _ _ done =>
      obtain ⟨new, journal, silent, course⟩ := done.course read
      let o : Outcome := { path := rel, status := .updated, failure }
      refine ⟨new ++ [.noted (noticeOf rel failure)] ++ [.reported o], ?_, ?_,
        (course.told rfl).told rfl⟩
      · simp [Job.progressOf, journal, o]
      · rw [Journal.listings_append, Journal.listings_append, silent]
        rfl

theorem settle_steady (c : Config) (refusals : Refusals) (p : Path) (rel : Text) (g : Progress) :
    Steady g.store (Job.progressOf (settle c refusals p rel g)).store := by
  obtain ⟨_, _, _, course⟩ := settle_proceeds c refusals p rel g
  exact course.last

end Insertion

end LicenseHeaders
