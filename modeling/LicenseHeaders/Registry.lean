import LicenseHeaders.Language

/-!
The registry says which header a file gets, by its extension. It keeps the order in which
extensions came in; an extension that comes again keeps its place and takes the later header.
-/
namespace LicenseHeaders

structure Header where
  license : Text
  modeline : Text
deriving DecidableEq, Repr

def Header.text (h : Header) : Text := h.license ++ h.modeline

structure Registry where
  entries : List (Text × Header)
deriving DecidableEq, Repr

namespace Registry

def empty : Registry := ⟨[]⟩

def insertInto (ext : Text) (header : Header) : List (Text × Header) → List (Text × Header)
  | [] => [(ext, header)]
  | entry :: rest =>
    if entry.1 = ext then (ext, header) :: rest else entry :: insertInto ext header rest

def insert (r : Registry) (ext : Text) (header : Header) : Registry :=
  ⟨insertInto ext header r.entries⟩

def get? (r : Registry) (ext : Text) : Option Header := r.entries.lookup ext

def extensions (r : Registry) : List Text := r.entries.map Prod.fst

def ofList (entries : List (Text × Header)) : Registry :=
  entries.foldl (fun r entry => r.insert entry.1 entry.2) empty

def headerFor (license modeline : Text) (l : Language) : Header :=
  ⟨l.comment license, l.comment modeline⟩

def derive (license modeline : Text) (languages : List Language) : Registry :=
  ofList (languages.flatMap fun l => l.extensions.map (·, headerFor license modeline l))

theorem lookup_cons (key ext : Text) (header : Header) (entries : List (Text × Header)) :
    ((ext, header) :: entries).lookup key =
      if key = ext then some header else entries.lookup key := by
  by_cases h : key = ext
  · simp [h]
  · simp [List.lookup_cons, h, beq_eq_false_iff_ne.2 h]

theorem lookup_insertInto (ext key : Text) (header : Header) (entries : List (Text × Header)) :
    (insertInto ext header entries).lookup key =
      if key = ext then some header else entries.lookup key := by
  induction entries with
  | nil => exact lookup_cons key ext header []
  | cons entry rest ih =>
    obtain ⟨first, old⟩ := entry
    by_cases same : first = ext
    · subst same
      simp only [insertInto, if_true, lookup_cons]
      split <;> rfl
    · simp only [insertInto, same, if_false, lookup_cons, ih]
      by_cases h : key = ext
      · subst h
        simp [Ne.symm same]
      · simp [h]

theorem get?_insert (r : Registry) (ext key : Text) (header : Header) :
    (r.insert ext header).get? key = if key = ext then some header else r.get? key :=
  lookup_insertInto ext key header r.entries

theorem map_fst_insertInto (ext : Text) (header : Header) (entries : List (Text × Header)) :
    (insertInto ext header entries).map Prod.fst =
      if ext ∈ entries.map Prod.fst then entries.map Prod.fst
      else entries.map Prod.fst ++ [ext] := by
  induction entries with
  | nil => simp [insertInto]
  | cons entry rest ih =>
    obtain ⟨first, old⟩ := entry
    by_cases g : first = ext
    · simp [insertInto, g]
    · simp only [insertInto, g, if_false, List.map_cons, ih, List.mem_cons]
      by_cases m : ext ∈ rest.map Prod.fst <;> simp [m, Ne.symm g]

theorem extensions_insert (r : Registry) (ext : Text) (header : Header) :
    (r.insert ext header).extensions =
      if ext ∈ r.extensions then r.extensions else r.extensions ++ [ext] :=
  map_fst_insertInto ext header r.entries

end Registry

end LicenseHeaders
