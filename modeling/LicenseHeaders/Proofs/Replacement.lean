import LicenseHeaders.Insertion
import LicenseHeaders.Proofs.Utf8

/-!
What can become of one file. `Replaced` lists the ends that a replacement can come to, each with the
store it leaves, and `Processed` those of the step over one file; the functions come to no other
end. Only a replacement that has written its temporary file changes the store at all.
-/
namespace LicenseHeaders

instance decidableEqExcept {ε α : Type} [DecidableEq ε] [DecidableEq α] : DecidableEq (Except ε α)
  | .ok a, .ok b => decidable_of_iff (a = b) (by simp)
  | .error a, .error b => decidable_of_iff (a = b) (by simp)
  | .ok _, .error _ => isFalse (by simp)
  | .error _, .ok _ => isFalse (by simp)

instance decidableEqResult {ε σ α : Type} [DecidableEq ε] [DecidableEq σ] [DecidableEq α] :
    DecidableEq (EStateM.Result ε σ α)
  | .ok a s, .ok b t => decidable_of_iff (a = b ∧ s = t) (by simp)
  | .error a s, .error b t => decidable_of_iff (a = b ∧ s = t) (by simp)
  | .ok _ _, .error _ _ => isFalse (by simp)
  | .error _ _, .ok _ _ => isFalse (by simp)

namespace Job

variable {α β : Type}

/-- How far a job has come when it ends, well or not. -/
def progressOf : EStateM.Result Fault Progress α → Progress
  | .ok _ g => g
  | .error _ g => g

@[simp] theorem bind_apply (x : Job α) (f : α → Job β) (g : Progress) :
    (x >>= f) g = match x g with
      | .ok a g' => f a g'
      | .error fault g' => .error fault g' := by
  change EStateM.bind x f g = _
  unfold EStateM.bind
  cases x g <;> rfl

@[simp] theorem pure_apply (a : α) (g : Progress) : (pure a : Job α) g = .ok a g := rfl

@[simp] theorem throw_apply (fault : Fault) (g : Progress) :
    (throw fault : Job α) g = .error fault g := rfl

@[simp] theorem store_apply (g : Progress) : Job.store g = .ok g.store g := rfl

@[simp] theorem record_apply (event : Event) (g : Progress) :
    record event g = .ok () { g with journal := g.journal ++ [event] } := rfl

@[simp] theorem note_apply (notice : Notice) (g : Progress) :
    note notice g = .ok () { g with journal := g.journal ++ [.noted notice] } := rfl

@[simp] theorem change_apply (store : Store) (event : Event) (g : Progress) :
    change store event g = .ok () { store, journal := g.journal ++ [event] } := rfl

theorem read_apply (p : Path) (g : Progress) :
    Job.read p g =
      if '\x00' ∈ p.toText then .error .nullInPath g
      else match g.store.read p with
        | .ok contents => .ok contents g
        | .error cause => .error (.system (.ofCause cause p.toText)) g := by
  by_cases null : '\x00' ∈ p.toText
  · simp [Job.read, guardPath, null]
  · simp only [Job.read, bind_apply, guardPath, null, if_false, pure_apply, store_apply]
    cases g.store.read p <;> rfl

theorem list_apply (p : Path) (g : Progress) :
    Job.list p g =
      if '\x00' ∈ p.toText then .error .nullInPath g
      else match g.store.list p with
        | .ok (place, entries) => .ok entries { g with journal := g.journal ++ [.listed place] }
        | .error cause => .error (.system (.ofCause cause p.toText)) g := by
  by_cases null : '\x00' ∈ p.toText
  · simp [Job.list, guardPath, null]
  · simp only [Job.list, bind_apply, guardPath, null, if_false, pure_apply, store_apply]
    cases g.store.list p <;> rfl

theorem write_apply (p : Path) (contents : Bytes) (g : Progress) :
    Job.write p contents g =
      if '\x00' ∈ p.toText then .error .nullInPath g
      else match g.store.write p contents with
        | .ok (place, store) =>
          .ok () { store, journal := g.journal ++ [.wrote place contents] }
        | .error cause => .error (.system (.ofCause cause p.toText)) g := by
  by_cases null : '\x00' ∈ p.toText
  · simp [Job.write, guardPath, null]
  · simp only [Job.write, bind_apply, guardPath, null, if_false, pure_apply, store_apply]
    cases g.store.write p contents <;> rfl

end Job

theorem occursIn_append {α : Type} [BEq α] [LawfulBEq α] {block whole : List α} (before : List α)
    (h : occursIn block whole = true) : occursIn block (before ++ whole) = true := by
  obtain ⟨start, after, eq⟩ := (occursIn_iff _ _).1 h
  exact (occursIn_iff _ _).2 ⟨before ++ start, after, by simp [eq]⟩

namespace Config

variable {c : Config} {rel : Text} {contents : Bytes} {header : Header}

theorem needsHeader_eq_false {content : SourceText} :
    c.needsHeader rel content header = false ↔
      occursIn (SourceText.ofText header.license) content = true ∨
        c.exempts (Relative.directory rel) rel = true := by
  unfold needsHeader
  cases occursIn (SourceText.ofText header.license) content <;>
    cases c.exempts (Relative.directory rel) rel <;> simp

theorem needsHeader_behind (more : Text) (fine : c.needsHeader rel (.ofBytes contents) header = false) :
    c.needsHeader rel (.ofBytes (Utf8.encode more ++ contents)) header = false := by
  rw [needsHeader_eq_false] at fine ⊢
  rw [SourceText.ofBytes_encode_append]
  rcases fine with there | exempt
  · exact .inl (occursIn_append _ there)
  · exact .inr exempt

theorem needsHeader_own (c : Config) (rel : Text) (header : Header) (contents : Bytes) :
    c.needsHeader rel (.ofBytes (Utf8.encode header.text ++ contents)) header = false := by
  rw [needsHeader_eq_false, SourceText.ofBytes_encode_append, occursIn_iff]
  refine .inl ⟨[], SourceText.ofText header.modeline ++ SourceText.ofBytes contents, ?_⟩
  simp [Header.text, SourceText.ofText]

end Config

namespace Insertion

variable {c : Config} {refusals : Refusals} {p : Path} {rel : Text} {header : Header}

inductive Replaced (refusals : Refusals) (p : Path) (bytes : Bytes) (g : Progress) :
    EStateM.Result Fault Progress (Option FailedMove) → Prop where
  | unwritten (fault : Fault) : Replaced refusals p bytes g (.error fault g)
  | refused {temporary : Path} {place : Location} {written : Store} {refusal : Refusal}
      (beside : p.beside? temporaryEnding = some temporary)
      (wrote : g.store.write temporary bytes = .ok (place, written))
      (refuse : refusals p.toText = some refusal) :
      Replaced refusals p bytes g (.ok (some ⟨temporary, p, refusal.error⟩)
        ⟨written, g.journal ++ [.wrote place bytes]⟩)
  | stuck {temporary : Path} {place : Location} {written : Store} {cause : Cause}
      (beside : p.beside? temporaryEnding = some temporary)
      (wrote : g.store.write temporary bytes = .ok (place, written))
      (allow : refusals p.toText = none) (move : written.move temporary p = .error cause) :
      Replaced refusals p bytes g
        (.ok (some ⟨temporary, p, .ofMove cause temporary.toText p.toText⟩)
          ⟨written, g.journal ++ [.wrote place bytes]⟩)
  | moved {temporary : Path} {place old new : Location} {written final : Store}
      (beside : p.beside? temporaryEnding = some temporary)
      (wrote : g.store.write temporary bytes = .ok (place, written))
      (allow : refusals p.toText = none)
      (move : written.move temporary p = .ok ((old, new), final)) :
      Replaced refusals p bytes g
        (.ok none ⟨final, g.journal ++ [.wrote place bytes] ++ [.moved old new]⟩)

theorem replaced (refusals : Refusals) (p : Path) (content : SourceText) (g : Progress) :
    Replaced refusals p content.toBytes g (replace refusals p content g) := by
  unfold replace
  cases beside : p.beside? temporaryEnding with
  | none => exact .unwritten _
  | some temporary =>
  by_cases null : '\x00' ∈ temporary.toText
  · simp only [Job.bind_apply, Job.write_apply, null, if_true]
    exact .unwritten _
  cases wrote : g.store.write temporary content.toBytes with
  | error cause =>
    simp only [Job.bind_apply, Job.write_apply, null, if_false, wrote]
    exact .unwritten _
  | ok result =>
  obtain ⟨place, written⟩ := result
  simp only [Job.bind_apply, Job.write_apply, null, if_false, wrote, moveOver]
  cases refuse : refusals p.toText with
  | some refusal => exact .refused beside wrote refuse
  | none =>
  simp only [Job.bind_apply, Job.store_apply]
  cases move : written.move temporary p with
  | error cause => exact .stuck beside wrote refuse move
  | ok result => exact .moved beside wrote refuse move

def noticeOf (rel : Text) : Option FailedMove → Notice
  | some failure => .moveFailed failure
  | none => .headerPrepended rel

inductive Processed (c : Config) (refusals : Refusals) (p : Path) (rel : Text) (header : Header)
    (g : Progress) : EStateM.Result Fault Progress Outcome → Prop where
  | failed (fault : Fault) : Processed c refusals p rel header g (.error fault g)
  | kept {contents : Bytes} (plain : '\x00' ∉ p.toText) (read : g.store.read p = .ok contents)
      (fine : c.needsHeader rel (.ofBytes contents) header = false) :
      Processed c refusals p rel header g (.ok { path := rel, status := .ok } g)
  | foreseen {contents : Bytes} (plain : '\x00' ∉ p.toText) (read : g.store.read p = .ok contents)
      (lacks : c.needsHeader rel (.ofBytes contents) header = true) (dry : c.dryRun = true) :
      Processed c refusals p rel header g (.ok { path := rel, status := .wouldUpdate } g)
  | updated {contents : Bytes} {failure : Option FailedMove} {g' : Progress}
      (plain : '\x00' ∉ p.toText) (read : g.store.read p = .ok contents)
      (lacks : c.needsHeader rel (.ofBytes contents) header = true) (real : c.dryRun = false)
      (done : Replaced refusals p (Utf8.encode header.text ++ contents) g (.ok failure g')) :
      Processed c refusals p rel header g
        (.ok { path := rel, status := .updated, failure }
          { g' with journal := g'.journal ++ [.noted (noticeOf rel failure)] })

theorem processed (c : Config) (refusals : Refusals) (p : Path) (rel : Text) (header : Header)
    (g : Progress) : Processed c refusals p rel header g (process c refusals p rel header g) := by
  unfold process readSource
  by_cases null : '\x00' ∈ p.toText
  · simp only [Job.bind_apply, Job.read_apply, null, if_true]
    exact .failed _
  cases read : g.store.read p with
  | error cause =>
    simp only [Job.bind_apply, Job.read_apply, null, if_false, read]
    exact .failed _
  | ok contents =>
  simp only [Job.bind_apply, Job.read_apply, null, if_false, read, Job.pure_apply]
  cases lacks : c.needsHeader rel (.ofBytes contents) header with
  | false => exact .kept null read lacks
  | true =>
  cases dry : c.dryRun with
  | true => exact .foreseen null read lacks dry
  | false =>
  have step := replaced refusals p (.ofText header.text ++ .ofBytes contents) g
  rw [SourceText.toBytes_append, SourceText.toBytes_ofText, SourceText.toBytes_ofBytes] at step
  simp only [Bool.not_true, Bool.false_eq_true, if_false, Job.bind_apply]
  generalize replace refusals p (.ofText header.text ++ .ofBytes contents) g = result at step
  match result, step with
  | .error fault g', step =>
    cases step
    exact .failed _
  | .ok none g', step => exact .updated null read lacks dry step
  | .ok (some failure) g', step => exact .updated null read lacks dry step

end Insertion

end LicenseHeaders
