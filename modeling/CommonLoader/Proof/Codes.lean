import CommonLoader.Model.ApplicationStore
import CommonLoader.Model.AssemblyLoader
import Mathlib.Data.List.Basic

/-!
# Which codes there are, and how they are found

A load takes a type for a code when its `IsLoaderExecutable` gives anything but null,
and a boxed `false` is not null. A code is looked for by its identifier, which is its ID
if it has one and its full name if not; the lookup compares both, and the first code in
the list that has either is the one.
-/

namespace CommonLoader

open CText

variable {marshalAs : WStr → Bytes}

/-! ## Loading -/

/-- What a load takes for a code. -/
def takenForCode (type : ExportedType) : Bool :=
  match type.isLoaderExecutable with
  | some (some _) => true
  | _ => false

/-- A type that says that it is one. -/
def executable (type : ExportedType) : Bool := type.isLoaderExecutable = some (some true)

/-- A type to give a provider to. -/
def wantsProvider (type : ExportedType) : Bool :=
  type.name = memoryService ∧ type.registerProvider

theorem takenForCode_iff (type : ExportedType) :
    takenForCode type = true ↔
      executable type = true ∨ type.isLoaderExecutable = some (some false) := by
  unfold takenForCode executable
  rcases type.isLoaderExecutable with _ | _ | _ | _ <;> simp

/-- **One type**: a code is added, or a provider is given, or nothing happens. -/
theorem loadType_eq (a : AssemblyLoader) (type : ExportedType) :
    loadType marshalAs a type
      = ⟨a.codes.map (· ++ ([type].filter takenForCode).map (CodeObject.create marshalAs)),
          a.providers ++ [type].filter fun t => !takenForCode t && wantsProvider t⟩ := by
  unfold loadType
  by_cases htaken : takenForCode type = true
  · obtain ⟨v, hv⟩ : ∃ v, type.isLoaderExecutable = some (some v) := by
      rcases (takenForCode_iff type).mp htaken with h | h
      · exact ⟨true, of_decide_eq_true h⟩
      · exact ⟨false, h⟩
    rw [hv]
    simp [htaken]
  · have hnot : ∀ v, type.isLoaderExecutable ≠ some (some v) := by
      intro v hv
      refine htaken ?_
      unfold takenForCode
      rw [hv]
    split
    · rename_i v hv
      exact absurd hv (hnot v)
    · by_cases hwants : wantsProvider type = true
      · rw [if_pos (of_decide_eq_true hwants)]
        simp [htaken, hwants]
      · rw [if_neg fun h => hwants (decide_eq_true h)]
        simp [htaken, hwants]

theorem loadTypes_eq : ∀ (types : List ExportedType) (a : AssemblyLoader),
    types.foldl (loadType marshalAs) a
      = ⟨a.codes.map (· ++ (types.filter takenForCode).map (CodeObject.create marshalAs)),
          a.providers ++ types.filter fun t => !takenForCode t && wantsProvider t⟩ := by
  intro types
  induction types with
  | nil =>
    intro a
    cases a with
    | mk codes providers => cases codes <;> simp
  | cons type types ih =>
    intro a
    have hcons : ∀ p : ExportedType → Bool,
        (type :: types).filter p = [type].filter p ++ types.filter p := fun p =>
      List.filter_append (p := p) [type] types
    rw [List.foldl_cons, ih, loadType_eq, hcons, hcons, List.map_append]
    cases a.codes with
    | none => simp
    | some codes => simp

/-- The exported types of the files that exist, in order. -/
def exportedTypes (files : List (Option (List ExportedType))) : List ExportedType :=
  files.flatMap fun file => file.getD []

/-- One load after the other. -/
def loadAll (marshalAs : WStr → Bytes) (a : AssemblyLoader)
    (files : List (Option (List ExportedType))) : AssemblyLoader :=
  files.foldl (fun a file => (a.load marshalAs file).2) a

theorem AssemblyLoader.load_eq (a : AssemblyLoader) (file : Option (List ExportedType)) :
    (a.load marshalAs file).2
      = ⟨some (a.codes.getD []
            ++ ((file.getD []).filter takenForCode).map (CodeObject.create marshalAs)),
          a.providers ++ (file.getD []).filter fun t => !takenForCode t && wantsProvider t⟩ := by
  unfold AssemblyLoader.load
  cases file with
  | none => simp
  | some types =>
    dsimp only
    rw [loadTypes_eq]
    rfl

/-- **A sequence of loads**, from any state. -/
theorem loadAll_eq : ∀ (files : List (Option (List ExportedType))) (a : AssemblyLoader),
    (loadAll marshalAs a files).codes.getD []
        = a.codes.getD []
          ++ ((exportedTypes files).filter takenForCode).map (CodeObject.create marshalAs)
      ∧ (loadAll marshalAs a files).providers
        = a.providers
          ++ (exportedTypes files).filter fun t => !takenForCode t && wantsProvider t := by
  intro files
  induction files with
  | nil =>
    intro a
    exact ⟨(List.append_nil _).symm, (List.append_nil _).symm⟩
  | cons file files ih =>
    intro a
    obtain ⟨hcodes, hproviders⟩ := ih (a.load marshalAs file).2
    have hcons : exportedTypes (file :: files) = file.getD [] ++ exportedTypes files :=
      List.flatMap_cons
    unfold loadAll at hcodes hproviders ⊢
    rw [List.foldl_cons, hcodes, hproviders, AssemblyLoader.load_eq, hcons, List.filter_append, List.filter_append,
      List.map_append, Option.getD_some, List.append_assoc, List.append_assoc]
    exact ⟨rfl, rfl⟩

/--
What loading is for: a code for each type that says that it is one, and a provider for
each other memory service.
-/
structure RegistersExactly (marshalAs : WStr → Bytes) (files : List (Option (List ExportedType)))
    (a : AssemblyLoader) : Prop where
  codes : a.codes.getD [] = ((exportedTypes files).filter executable).map (CodeObject.create marshalAs)
  providers : a.providers = (exportedTypes files).filter fun t => !executable t && wantsProvider t

/-- A filter that lets less pass and yet keeps as many lets the same pass. -/
theorem filter_of_length_eq {α : Type} {p q : α → Bool} {l : List α} (h : ∀ x, q x = true → p x = true)
    (hlen : (l.filter p).length = (l.filter q).length) {x : α} (hx : x ∈ l) (hp : p x = true) :
    q x = true := by
  have hsub : (l.filter q).Sublist (l.filter p) := List.monotone_filter_right l h
  have hmem : x ∈ l.filter q := hsub.eq_of_length hlen.symm ▸ List.mem_filter.mpr ⟨hx, hp⟩
  exact (List.mem_filter.mp hmem).2

/--
**When loading registers exactly the executable codes**: when no type of any file says
that it is not one.
-/
theorem load_registersExactly (marshalAs : WStr → Bytes) (files : List (Option (List ExportedType))) :
    RegistersExactly marshalAs files (loadAll marshalAs ⟨none, []⟩ files) ↔
      ∀ type ∈ exportedTypes files, type.isLoaderExecutable ≠ some (some false) := by
  obtain ⟨hcodes, hproviders⟩ := @loadAll_eq marshalAs files ⟨none, []⟩
  refine ⟨?_, ?_⟩
  · intro h type htype hfalse
    -- one code for each type taken, so those taken are no more than those executable
    have hlen := congrArg List.length (hcodes.symm.trans h.codes)
    rw [Option.getD_none, List.nil_append, List.length_map, List.length_map] at hlen
    have hexec := filter_of_length_eq (fun x hx => (takenForCode_iff x).mpr (Or.inl hx)) hlen htype
      ((takenForCode_iff type).mpr (Or.inr hfalse))
    unfold executable at hexec
    rw [hfalse] at hexec
    exact absurd hexec (by decide)
  · intro h
    have hsame : ∀ type ∈ exportedTypes files, takenForCode type = executable type := by
      intro type htype
      rw [Bool.eq_iff_iff, takenForCode_iff]
      exact or_iff_left (h type htype)
    refine ⟨?_, ?_⟩
    · rw [hcodes, Option.getD_none, List.nil_append, List.filter_congr hsame]
    · rw [hproviders, List.nil_append]
      refine List.filter_congr fun type htype => ?_
      rw [hsame type htype]

/-- A memory service that says that it is no code. -/
def declinedService : ExportedType := ⟨memoryService, some (some false), true, none⟩

/-- **It becomes a code all the same**, and is given no provider. -/
theorem load_declinedService :
    (loadAll narrow ⟨none, []⟩ [some [declinedService]]).codes
        = some [CodeObject.create narrow declinedService]
      ∧ (loadAll narrow ⟨none, []⟩ [some [declinedService]]).providers = []
      ∧ ¬RegistersExactly narrow [some [declinedService]]
        (loadAll narrow ⟨none, []⟩ [some [declinedService]]) := by
  refine ⟨rfl, rfl, ?_⟩
  intro h
  exact absurd h.providers (by decide +kernel)

/-! ## Finding -/

/-- The lookup stops at a code with this ID or this full name. -/
def CodeObject.AnswersTo (c : CodeObject) (s : Bytes) : Prop := c.id = s ∨ c.fullName = s

instance (s : Bytes) : DecidablePred fun c : CodeObject => c.AnswersTo s :=
  fun _ => inferInstanceAs (Decidable (_ ∨ _))

/-- **`FindCode` finds the first code that answers.** -/
theorem findCodeImpl_eq (id : Bytes) (code : Option CodeT) : ∀ codes : List CodeObject,
    findCodeImpl codes id code
      = match codes.find? fun c => c.AnswersTo (cstr id) with
        | some c => (true, code.map fun _ => c.codeT)
        | none => (false, code) := by
  intro codes
  induction codes with
  | nil => rfl
  | cons c codes ih =>
    rw [findCodeImpl]
    by_cases h : c.id = cstr id ∨ c.fullName = cstr id
    · have hd : decide (c.AnswersTo (cstr id)) = true := decide_eq_true h
      rw [if_pos h, List.find?_cons, hd]
    · have hd : decide (c.AnswersTo (cstr id)) = false := decide_eq_false h
      rw [if_neg h, List.find?_cons, hd]
      exact ih

/-- A code without an ID is known by its full name. -/
theorem answersTo_identifier (c : CodeObject) : c.AnswersTo (c.getIdentifier true) := by
  unfold CodeObject.AnswersTo CodeObject.getIdentifier
  split
  · exact Or.inr rfl
  · exact Or.inl rfl

/-- Another code answers to an identifier by its full name only, next to an ID of its own. -/
theorem answersTo_other {c c' : CodeObject} (hne : c.getIdentifier true ≠ [])
    (hdiff : c'.getIdentifier true ≠ c.getIdentifier true) :
    c'.AnswersTo (c.getIdentifier true) ↔ c'.id ≠ [] ∧ c'.fullName = c.getIdentifier true := by
  refine ⟨?_, fun h => Or.inr h.2⟩
  rintro (hid | hfull)
  · refine absurd ?_ hdiff
    unfold CodeObject.getIdentifier at hne ⊢
    rw [if_neg (by rw [hid]; exact hne), hid]
    rfl
  · refine ⟨?_, hfull⟩
    intro hid
    refine hdiff ?_
    rw [← hfull, CodeObject.getIdentifier, if_pos hid, if_pos rfl]

theorem getIdentifier_of_codeT {c c' : CodeObject} (h : c.codeT = c'.codeT) :
    c.getIdentifier true = c'.getIdentifier true := by
  obtain ⟨_, hid, hname, _, hcategory⟩ := CodeT.mk.inj h
  unfold CodeObject.getIdentifier CodeObject.fullName
  rw [Option.some.inj hid, Option.some.inj hname, Option.some.inj hcategory]

section Identifier

variable {before after : List CodeObject} {c : CodeObject} (hnul : 0 ∉ c.getIdentifier true)

include hnul

/-- An identifier finds its own code, or one before it. -/
theorem findCodeImpl_append (code : Option CodeT) :
    findCodeImpl (before ++ c :: after) (c.getIdentifier true) code
      = (true, code.map fun _ =>
        ((before.find? fun c' => c'.AnswersTo (c.getIdentifier true)).getD c).codeT) := by
  have hc : decide (c.AnswersTo (c.getIdentifier true)) = true :=
    decide_eq_true (answersTo_identifier c)
  rw [findCodeImpl_eq, cstr_eq_self hnul, List.find?_append, List.find?_cons, hc]
  cases before.find? fun c' => c'.AnswersTo (c.getIdentifier true) with
  | none => rfl
  | some c' => rfl

/-- The code itself is found exactly if none before it answers. -/
theorem findCodeImpl_own_iff
    (hown : ∀ c' ∈ before, c'.getIdentifier true ≠ c.getIdentifier true) :
    (∀ code, findCodeImpl (before ++ c :: after) (c.getIdentifier true) code
        = (true, code.map fun _ => c.codeT)) ↔
      ∀ c' ∈ before, ¬c'.AnswersTo (c.getIdentifier true) := by
  refine ⟨?_, ?_⟩
  · intro h c' hc' hanswers
    cases hbefore : before.find? fun c' => c'.AnswersTo (c.getIdentifier true) with
    | none => exact List.find?_eq_none.mp hbefore c' hc' (decide_eq_true hanswers)
    | some found =>
      -- the fields that are filled in would be those of a code with another identifier
      have hfields := (findCodeImpl_append hnul (some ⟨0, none, none, none, none⟩)).symm.trans (h _)
      rw [hbefore] at hfields
      exact absurd (getIdentifier_of_codeT (Option.some.inj (Prod.mk.inj hfields).2))
        (hown found (List.mem_of_find?_eq_some hbefore))
  · intro h code
    have hnone : before.find? (fun c' => c'.AnswersTo (c.getIdentifier true)) = none :=
      List.find?_eq_none.mpr fun c' hc' hd => h c' hc' (of_decide_eq_true hd)
    rw [findCodeImpl_append hnul, hnone]
    rfl

end Identifier

/-- A string that no code answers to finds nothing. -/
theorem findCodeImpl_none {codes : List CodeObject} {id : Bytes} (code : Option CodeT)
    (h : ∀ c ∈ codes, ¬c.AnswersTo (cstr id)) : findCodeImpl codes id code = (false, code) := by
  have hnone : codes.find? (fun c => c.AnswersTo (cstr id)) = none :=
    List.find?_eq_none.mpr fun c hc hd => h c hc (of_decide_eq_true hd)
  rw [findCodeImpl_eq, hnone]

/--
**What an identifier finds.** A code, whichever is loaded; and the code whose identifier
it is, unless one before it has that for its full name next to an ID of its own. A string
that no code answers to finds nothing, and fills in nothing.
-/
theorem findCode_identifier {codes : List CodeObject}
    (hdistinct : (codes.map fun c => c.getIdentifier true).Nodup) :
    (∀ before c after, codes = before ++ c :: after →
      c.getIdentifier true ≠ [] → 0 ∉ c.getIdentifier true →
        (∀ code, (findCodeImpl codes (c.getIdentifier true) code).1 = true)
          ∧ ((∀ code, findCodeImpl codes (c.getIdentifier true) code
              = (true, code.map fun _ => c.codeT)) ↔
            ∀ c' ∈ before, c'.id ≠ [] → c'.fullName ≠ c.getIdentifier true))
      ∧ ∀ id code, (∀ c ∈ codes, ¬c.AnswersTo (cstr id)) →
        findCodeImpl codes id code = (false, code) := by
  refine ⟨?_, fun _ code hnone => findCodeImpl_none code hnone⟩
  rintro before c after rfl hne hnul
  have hown : ∀ c' ∈ before, c'.getIdentifier true ≠ c.getIdentifier true := by
    intro c' hc'
    rw [List.map_append, List.map_cons, List.nodup_append] at hdistinct
    exact hdistinct.2.2 _ (List.mem_map.mpr ⟨c', hc', rfl⟩) _ (List.mem_cons_self ..)
  refine ⟨fun code => by rw [findCodeImpl_append hnul], ?_⟩
  rw [findCodeImpl_own_iff hnul hown]
  refine forall_congr' fun c' => forall_congr' fun hc' => ?_
  rw [answersTo_other hne (hown c' hc'), not_and]

/-- A code of a type that has only its four strings. -/
def codeOf (id name : String) : CodeObject :=
  CodeObject.create narrow ⟨[], some (some true), false, some ⟨ascii id, ascii name, [], []⟩⟩

/-- A `Code_t` as a caller makes it. -/
def blankCode : CodeT := ⟨40, none, none, none, none⟩

theorem findCode_identifier_two :
    findCodeImpl [codeOf "first" "Other", codeOf "" "Name"] (ascii "Name") (some blankCode)
      = (true, some (codeOf "" "Name").codeT) :=
  (((findCode_identifier (by decide +kernel)).1 [codeOf "first" "Other"] (codeOf "" "Name") [] rfl
    (by decide +kernel) (by decide +kernel)).2.mpr (by decide +kernel)) (some blankCode)

/-- A code with an ID, a code with the same name and none, and an ID with a zero in it. -/
def namesakes : List CodeObject := [codeOf "first" "Name", codeOf "" "Name", codeOf "A\x00" ""]

/-- **The first one is found under the identifier of the second**, and the third not at all. -/
theorem namesakes_found :
    (namesakes.map fun c => c.getIdentifier true).Nodup
      ∧ findCodeImpl namesakes ((codeOf "" "Name").getIdentifier true) (some blankCode)
        = (true, some (codeOf "first" "Name").codeT)
      ∧ (findCodeImpl namesakes ((codeOf "A\x00" "").getIdentifier true) none).1 = false
      ∧ ¬ ∀ c ∈ namesakes, c.getIdentifier true ≠ [] → ∀ code,
        findCodeImpl namesakes (c.getIdentifier true) code = (true, code.map fun _ => c.codeT) := by
  refine ⟨by decide +kernel, by decide +kernel, by decide +kernel, ?_⟩
  intro h
  have := h (codeOf "" "Name") (by decide +kernel) (by decide +kernel) (some blankCode)
  exact absurd this (by decide +kernel)

end CommonLoader
