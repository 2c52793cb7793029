import LicenseHeaders.Proofs.LaterStores
import LicenseHeaders.Proofs.Descent
import LicenseHeaders.Proofs.ReadAfterReplace

/-!
The ways that the replacing of a file leaves alone. It neither makes nor removes a directory,
whatever links it writes through or moves: the same directories are reached by the same ways after
it as before. Nor does it make a link; one that it moves stays in its directory, and so leads the
same way from there.
-/
namespace LicenseHeaders

namespace Store

/-- The same directories are there and the same ways lead to them, and no link is new but for the
name that it has in its directory. -/
structure Steady (s t : Store) : Prop where
  base : t.base = s.base
  isDirectory_iff : ∀ place, t.IsDirectory place ↔ s.IsDirectory place
  forth : ∀ {n a steps b}, s.IsDirectory b → s.Leads n a steps b → t.Leads n a steps b
  back : ∀ {n a steps b}, t.IsDirectory b → t.Leads n a steps b → s.Leads n a steps b
  links : ∀ {place name target}, t.get? (place ++ [name]) = some (.link target) →
    ∃ other, s.get? (place ++ [other]) = some (.link target)

namespace Steady

variable {s t u : Store}

theorem refl (s : Store) : Steady s s :=
  ⟨rfl, fun _ => Iff.rfl, fun _ leads => leads, fun _ leads => leads, fun held => ⟨_, held⟩⟩

theorem trans (first : Steady s t) (second : Steady t u) : Steady s u := by
  refine ⟨second.base.trans first.base, ?_, ?_, ?_, ?_⟩
  · intro place
    exact (second.isDirectory_iff place).trans (first.isDirectory_iff place)
  · intro n a steps b inside leads
    exact second.forth ((first.isDirectory_iff b).2 inside) (first.forth inside leads)
  · intro n a steps b inside leads
    exact first.back ((second.isDirectory_iff b).1 inside) (second.back inside leads)
  · intro place name target held
    obtain ⟨_, between⟩ := second.links held
    exact first.links between

theorem isTree (h : Steady s t) (tree : s.IsTree) : t.IsTree := by
  intro place inside
  exact (h.isDirectory_iff _).2 (tree place ((h.isDirectory_iff place).1 inside))

theorem reaches (h : Steady s t) {p : Path} {spent : Nat} {place : Location}
    (reached : Reaches s p spent place) : Reaches t p spent place :=
  ⟨h.base ▸ h.forth reached.inside reached.leads, reached.within,
    (h.isDirectory_iff place).2 reached.inside⟩

theorem descends (h : Steady s t) {home names : Location} (down : s.Descends home names) :
    t.Descends home names :=
  fun upper before => (h.isDirectory_iff _).2 (down upper before)

end Steady

theorem Vacant.steady {s : Store} {place : Location} (vacant : s.Vacant place) (contents : Bytes) :
    Steady s (s.put place (.file contents)) := by
  have below := not_root vacant.not_isDirectory
  have there : (s.put place (.file contents)).get? place = some (.file contents) := by
    rw [get?_put _ _ _ _ below, if_pos rfl]
  have away : ∀ other, other ≠ place → (s.put place (.file contents)).get? other = s.get? other := by
    intro other apart
    rw [get?_put _ _ _ _ below, if_neg apart]
  refine ⟨rfl, fun other => ?_, ?_, ?_, ?_⟩
  · by_cases same : other = place
    · subst same
      exact iff_of_false (by simp [IsDirectory, there]) vacant.not_isDirectory
    · rw [IsDirectory, away other same, IsDirectory]
  · intro n a steps b inside leads
    refine leads.to_directory (fun other => ?_) inside
    by_cases same : other = place
    · subst same
      exact .inr vacant.missing_or_opens
    · exact .inl (away other same)
  · intro n a steps b inside leads
    refine leads.to_directory (fun other => ?_) inside
    by_cases same : other = place
    · subst same
      exact .inr (.inr ⟨contents, opens_file there⟩)
    · exact .inl (away other same).symm
  · intro above name target held
    by_cases same : above ++ [name] = place
    · rw [same, there] at held
      cases held
    · rw [away _ same] at held
      exact ⟨name, held⟩

end Store

namespace Insertion
open Store

namespace Exchange

variable {s written final : Store} {dir : Path} {source target : Name} {before bytes : Bytes}
variable {spent : Nat} {home place : Location} {node : Node}
variable (h : Exchange s written final dir source target before bytes spent home place node)
include h

theorem opens_target : ∃ contents, written.Opens (home ++ [target]) contents :=
  h.opens.extend h.grown

theorem opens_source : written.Opens (home ++ [source]) bytes := by
  obtain ⟨_, _, leads⟩ := h.way
  refine ⟨place, leads.endsAt, ?_⟩
  rw [h.get?_written, if_pos rfl]

theorem isDirectory_iff (other : Location) : final.IsDirectory other ↔ written.IsDirectory other := by
  rw [IsDirectory, h.get?_final]
  split
  · rename_i same
    subst same
    obtain ⟨_, opens⟩ := h.opens_target
    exact iff_of_false (by simpa using h.not_directory) opens.not_isDirectory
  · split
    · rename_i same
      subst same
      exact iff_of_false (by simp) h.opens_source.not_isDirectory
    · exact Iff.rfl

theorem leads_back {n : Nat} {a b : Location} {steps : List Step} (inside : final.IsDirectory b)
    (leads : Leads final n a steps b) : Leads written n a steps b := by
  have inside' := (h.isDirectory_iff b).1 inside
  induction leads with
  | here place => exact .here place
  | stay here more ih => exact .stay ((h.isDirectory_iff _).1 here) (ih inside inside')
  | up here more ih => exact .up ((h.isDirectory_iff _).1 here) (ih inside inside')
  | @into n there rest b name next here found real more ih =>
    have down : final.IsDirectory (there ++ [name]) := by
      by_cases end_ : final.IsDirectory (there ++ [name])
      · exact end_
      · obtain ⟨_, _, rfl⟩ := more.at_end end_
        exact inside
    exact .into ((h.isDirectory_iff _).1 here) ((h.isDirectory_iff _).1 down) (by simp [Node.kind])
      (ih inside inside')
  | @link n there rest b name text here found more ih =>
    rw [h.get?_final] at found
    split at found
    · rename_i same
      obtain ⟨rfl, _⟩ := List.append_inj' same rfl
      obtain ⟨_, _, chain⟩ := h.chain (Option.some.inj found)
      obtain ⟨_, _, tail⟩ := chain.cancel (ih inside inside')
      have stop : ¬ written.IsDirectory place := by simp [IsDirectory, h.get?_written]
      obtain ⟨_, _, rfl⟩ := tail.at_end stop
      exact absurd inside' stop
    · split at found
      · cases found
      · exact .link ((h.isDirectory_iff _).1 here) found (ih inside inside')

theorem steady : Steady written final := by
  refine ⟨by rw [h.moved]; rfl, h.isDirectory_iff, ?_, h.leads_back, ?_⟩
  · intro n a steps b inside leads
    refine leads.to_directory (fun other => ?_) inside
    rw [h.get?_final]
    by_cases atTarget : other = home ++ [target]
    · subst atTarget
      exact .inr (.inr h.opens_target)
    · by_cases atSource : other = home ++ [source]
      · subst atSource
        exact .inr (.inr ⟨bytes, h.opens_source⟩)
      · exact .inl (by rw [if_neg atTarget, if_neg atSource])
  · intro above name text held
    rw [h.get?_final] at held
    split at held
    · rename_i same
      obtain ⟨rfl, _⟩ := List.append_inj' same rfl
      exact ⟨source, h.held.trans held⟩
    · split at held
      · cases held
      · exact ⟨name, held⟩

end Exchange

end Insertion

end LicenseHeaders
