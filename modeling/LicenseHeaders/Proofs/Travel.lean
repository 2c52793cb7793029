import LicenseHeaders.Proofs.Resolution

/-!
Following paths under the limit. `travel` goes the ways of `Leads` as long as they do not take more
links than it may follow; when it is to create a file, it takes the last step of a way also where
nothing is yet.
-/
namespace LicenseHeaders.Store

/-- What becomes of the steps behind a link, under the limit. -/
def onLink (s : Store) (creating : Bool) (links : Nat) (place : Location) (target : Text)
    (rest : List Step) : Except Cause Location :=
  match links with
  | 0 => .error .tooManyLinks
  | links + 1 => s.travel creating links (linkStart place target)
      ((Route.ofText target).stepsTo (creating ∧ rest = []) ++ rest)

theorem travel_eq_take (s : Store) (creating : Bool) (links : Nat) :
    s.travel creating links = s.take creating (s.onLink creating links) := by
  cases links <;> rfl

@[simp] theorem travel_nil (s : Store) (creating : Bool) (links : Nat) (place : Location) :
    s.travel creating links place [] = .ok place := by
  cases links <;> rfl

theorem travel_outside {s : Store} {place : Location} (stop : ¬ s.IsDirectory place)
    (creating : Bool) (links : Nat) (step : Step) (rest : List Step) :
    s.travel creating links place (step :: rest) = .error .notADirectory := by
  rw [travel_eq_take]
  cases step <;> exact if_pos stop

theorem travel_stay {s : Store} {place : Location} (inside : s.IsDirectory place)
    (creating : Bool) (links : Nat) (rest : List Step) :
    s.travel creating links place (.stay :: rest) =
      if creating ∧ rest = [] then .error .isADirectory
      else s.travel creating links place rest := by
  rw [travel_eq_take, take, if_neg (fun stop => stop inside)]

theorem travel_up {s : Store} {place : Location} (inside : s.IsDirectory place)
    (creating : Bool) (links : Nat) (rest : List Step) :
    s.travel creating links place (.up :: rest) =
      if creating ∧ rest = [] then .error .isADirectory
      else s.travel creating links place.dropLast rest := by
  rw [travel_eq_take, take, if_neg (fun stop => stop inside)]

theorem travel_into {s : Store} {place : Location} (inside : s.IsDirectory place)
    (creating : Bool) (links : Nat) (name : Name) (rest : List Step) :
    s.travel creating links place (.into name.text :: rest) =
      match s.get? (place ++ [name]) with
      | none => if creating ∧ rest = [] then .ok (place ++ [name]) else .error .notFound
      | some (.link target) => s.onLink creating links place target rest
      | some _ => s.travel creating links (place ++ [name]) rest := by
  rw [travel_eq_take, take, if_neg (fun stop => stop inside)]
  cases held : s.get? (place ++ [name]) with
  | none => simp only [Name.ofText?_text, held]
  | some node => cases node <;> simp only [Name.ofText?_text, held]

theorem travel_unnamed {s : Store} {place : Location} (inside : s.IsDirectory place) {part : Text}
    (unnamed : Name.ofText? part = none) (creating : Bool) (links : Nat) (rest : List Step) :
    s.travel creating links place (.into part :: rest) = .error .nameTooLong := by
  rw [travel_eq_take, take, if_neg (fun stop => stop inside)]
  simp only [unnamed]

theorem Leads.travel {s : Store} {n : Nat} {a b : Location} {steps : List Step}
    (h : Leads s n a steps b) (creating : Bool) (links : Nat) (rest : List Step)
    (goesOn : creating = false ∨ rest ≠ []) :
    s.travel creating links a (steps ++ rest) =
      if n ≤ links then s.travel creating (links - n) b rest else .error .tooManyLinks := by
  have onward : ∀ before, ¬ (creating = true ∧ before ++ rest = []) := by
    intro before given
    obtain ⟨create, none⟩ := given
    rcases goesOn with not | some
    · simp [not] at create
    · simp [some] at none
  induction h generalizing links with
  | here place => simp
  | stay inside more ih => rw [List.cons_append, travel_stay inside, if_neg (onward _), ih]
  | up inside more ih => rw [List.cons_append, travel_up inside, if_neg (onward _), ih]
  | @into n place rest' other name node inside found real more ih =>
    rw [List.cons_append, travel_into inside, found, ← ih]
    cases node with
    | file | directory => rfl
    | link => exact absurd rfl real
  | @link n place rest' other name target inside found more ih =>
    rw [List.cons_append, travel_into inside, found]
    cases links with
    | zero => simp [onLink]
    | succ links =>
      simp only [onLink, decide_eq_false (onward _), ← List.append_assoc]
      rw [← linkSteps, ih]
      simp

theorem travel_ends_in_place (s : Store) (links : Nat) (place other : Location)
    (steps : List Step) : s.travel true links place (steps ++ [.stay]) ≠ .ok other := by
  induction links using Nat.strongRecOn generalizing place steps with
  | ind links ihLinks =>
    induction steps generalizing place with
    | nil =>
      by_cases inside : s.IsDirectory place
      · simp [travel_stay inside]
      · simp [travel_outside inside]
    | cons step rest ih =>
      by_cases inside : s.IsDirectory place
      · rw [List.cons_append]
        cases step with
        | stay => simpa [travel_stay inside] using ih place
        | up => simpa [travel_up inside] using ih _
        | into part =>
          cases named : Name.ofText? part with
          | none => simp [travel_unnamed inside named]
          | some name =>
            obtain rfl := Name.text_of_ofText? named
            rw [travel_into inside]
            split
            · simp
            · rename_i target _
              cases links with
              | zero => simp [onLink]
              | succ links =>
                simp only [onLink, ← List.append_assoc]
                exact ihLinks links (by omega) _ _
            · exact ih _
      · simp [travel_outside inside]

theorem linkStart_isDirectory {s : Store} {place : Location} (inside : s.IsDirectory place)
    (target : Text) : s.IsDirectory (linkStart place target) := by
  unfold linkStart Route.start
  split
  · exact s.root_isDirectory
  · exact inside

theorem travel_creating {s : Store} {links : Nat} {a b : Location} {steps : List Step}
    (h : s.travel true links a steps = .ok b) (start : steps ≠ [] ∨ s.IsDirectory a) :
    s.get? b = none ∨ ∃ node, s.get? b = some node ∧ node.kind ≠ .link := by
  induction links using Nat.strongRecOn generalizing a steps with
  | ind links ihLinks =>
    induction steps generalizing a with
    | nil =>
      simp only [travel_nil, Except.ok.injEq] at h
      subst h
      rcases start with some | inside
      · exact absurd rfl some
      · exact .inr ⟨_, inside, by simp [Node.kind]⟩
    | cons step rest ih =>
      by_cases inside : s.IsDirectory a
      · cases step with
        | stay =>
          rw [travel_stay inside] at h
          split at h
          · cases h
          · exact ih h (.inr inside)
        | up =>
          rw [travel_up inside] at h
          split at h
          · cases h
          · rename_i last
            exact ih h (.inl (by simpa using last))
        | into part =>
          cases named : Name.ofText? part with
          | none => simp [travel_unnamed inside named] at h
          | some name =>
            obtain rfl := Name.text_of_ofText? named
            rw [travel_into inside] at h
            split at h
            case h_1 missing =>
              split at h
              · cases h
                exact .inl missing
              · cases h
            case h_2 target found =>
              cases links with
              | zero => cases h
              | succ links => exact ihLinks links (by omega) h (.inr (linkStart_isDirectory inside _))
            case h_3 node notLink found =>
              by_cases last : rest = []
              · subst last
                simp only [travel_nil, Except.ok.injEq] at h
                subst h
                exact .inr ⟨node, found, Node.kind_ne_link notLink⟩
              · exact ih h (.inl last)
      · simp [travel_outside inside] at h

theorem stepsTo_true (r : Route) :
    r.stepsTo true = r.stepsTo false ∨ ∃ steps, r.stepsTo true = steps ++ [.stay] := by
  cases closed : r.closed with
  | false => simp [Route.stepsTo, closed]
  | true => exact .inr ⟨r.steps.dropLast, by simp [Route.stepsTo, closed]⟩

theorem onLink_eq_ok {s : Store} {creating : Bool} {links : Nat} {a b : Location} {target : Text}
    {rest : List Step} (h : s.onLink creating links a target rest = .ok b) :
    ∃ fewer, links = fewer + 1 ∧
      s.travel creating fewer (linkStart a target) (linkSteps target ++ rest) = .ok b := by
  cases links with
  | zero => cases h
  | succ fewer =>
    refine ⟨fewer, rfl, ?_⟩
    have same : (Route.ofText target).stepsTo (creating ∧ rest = []) = linkSteps target := by
      by_cases last : creating = true ∧ rest = []
      · obtain ⟨rfl, rfl⟩ := last
        rcases stepsTo_true (Route.ofText target) with same | ⟨steps, closed⟩
        · simpa [linkSteps] using same
        · simp only [onLink, and_self, decide_true, List.append_nil, closed] at h
          exact absurd h (travel_ends_in_place s fewer _ b steps)
      · rw [decide_eq_false last, linkSteps]
    simp only [onLink, same] at h
    exact h

theorem leads_of_travel {s s' : Store} (ext : Extends s s') {creating : Bool} {links : Nat}
    {a b : Location} {steps : List Step} (h : s.travel creating links a steps = .ok b)
    (there : ∃ node, s'.get? b = some node ∧ node.kind ≠ .link) :
    ∃ n, n ≤ links ∧ Leads s' n a steps b := by
  induction links using Nat.strongRecOn generalizing a steps with
  | ind links ihLinks =>
    induction steps generalizing a with
    | nil =>
      simp only [travel_nil, Except.ok.injEq] at h
      subst h
      exact ⟨0, by omega, .here a⟩
    | cons step rest ih =>
      by_cases inside : s.IsDirectory a
      · have inside' := ext.isDirectory inside
        cases step with
        | stay =>
          rw [travel_stay inside] at h
          split at h
          · cases h
          · obtain ⟨n, le, leads⟩ := ih h
            exact ⟨n, le, .stay inside' leads⟩
        | up =>
          rw [travel_up inside] at h
          split at h
          · cases h
          · obtain ⟨n, le, leads⟩ := ih h
            exact ⟨n, le, .up inside' leads⟩
        | into part =>
          cases named : Name.ofText? part with
          | none => simp [travel_unnamed inside named] at h
          | some name =>
            obtain rfl := Name.text_of_ofText? named
            rw [travel_into inside] at h
            split at h
            case h_1 missing =>
              split at h
              case isTrue last =>
                obtain ⟨_, rfl⟩ := last
                cases h
                obtain ⟨node, found, real⟩ := there
                exact ⟨0, by omega, .into inside' found real (.here _)⟩
              case isFalse => cases h
            case h_2 target found =>
              obtain ⟨fewer, rfl, way⟩ := onLink_eq_ok h
              obtain ⟨n, le, leads⟩ := ihLinks fewer (by omega) way
              exact ⟨n + 1, by omega, .link inside' (ext.link found) leads⟩
            case h_3 node notLink found =>
              obtain ⟨n, le, leads⟩ := ih h
              obtain ⟨node', found', real'⟩ := ext.real found (Node.kind_ne_link notLink)
              exact ⟨n, le, .into inside' found' real' leads⟩
      · simp [travel_outside inside] at h

end LicenseHeaders.Store
