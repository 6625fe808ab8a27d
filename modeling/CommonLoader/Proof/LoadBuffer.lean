import CommonLoader.Proof.IniPointer

/-!
# Load, over its buffer

The accessors of the library walk the property table from its start for every single
name and value. What `Load` gathers through them is, section by section, the map that
one pass over the properties gives, and no string is read past its terminator.
-/

namespace CommonLoader

open CText Cursor

theorem stringOf_eq {chars : Bytes} (h : (0 : UInt8) ∈ chars) : stringOf chars = some (cstr chars) := by
  obtain ⟨text, rest, rfl⟩ := List.append_of_mem h
  have hpoints : PointsTo (text ++ 0 :: rest) 0 text := ⟨rest, rfl⟩
  have hstrlen := strlenAt_eq hpoints
  rw [← cstr_append_nul text rest] at hstrlen
  unfold stringOf
  rw [hstrlen, Option.map_some]
  exact congrArg some (List.prefix_iff_eq_take.mp (List.takeWhile_prefix _)).symm

/-! ## Accessors -/

/-- The index that is found holds the property that was asked for. -/
theorem propertyIndexLoop_eq {sectionIndex : Nat} {q : IniInternalProperty} :
    ∀ (l : List IniInternalProperty) (i p n : Nat),
      (l.filter fun q => q.sectionIndex = sectionIndex)[n]? = some q →
      ∃ k, propertyIndexLoop sectionIndex (p + n) l i p = some (i + k) ∧ l[k]? = some q
  | [], _, _, n, h => by cases h
  | x :: l, i, p, n, h => by
    unfold propertyIndexLoop
    -- the loop counts the properties of the section and passes over the others
    by_cases hx : x.sectionIndex = sectionIndex
    · rw [List.filter_cons_of_pos (by simpa using hx)] at h
      rw [if_pos hx]
      cases n with
      | zero =>
        rw [if_pos (Nat.add_zero p).symm]
        exact ⟨0, rfl, h⟩
      | succ n =>
        obtain ⟨k, hk, hq⟩ := propertyIndexLoop_eq l (i + 1) (p + 1) n h
        rw [if_neg (by omega), show p + (n + 1) = p + 1 + n by omega, hk]
        exact ⟨k + 1, congrArg some (by omega), hq⟩
    · rw [List.filter_cons_of_neg (by simpa using hx)] at h
      obtain ⟨k, hk, hq⟩ := propertyIndexLoop_eq l (i + 1) p n h
      rw [if_neg hx, hk]
      exact ⟨k + 1, congrArg some (by omega), hq⟩

/-- **Name and value** of the property of a number. -/
theorem IniT.property_eq {ini : IniT} {i j : Nat} {q : IniInternalProperty}
    (hi : i < ini.sections.length)
    (hq : (ini.properties.filter fun q => q.sectionIndex = i)[j]? = some q) :
    ini.propertyName i j = some q.name.chars ∧ ini.propertyValue i j = some q.value.chars := by
  obtain ⟨k, hk, hkq⟩ := propertyIndexLoop_eq ini.properties 0 0 j hq
  have hindex : ini.internalPropertyIndex i j = some k := by
    unfold IniT.internalPropertyIndex
    rw [if_pos hi]
    rwa [Nat.zero_add, Nat.zero_add] at hk
  unfold IniT.propertyName IniT.propertyValue
  rw [hindex]
  simp only [Option.bind_eq_bind, Option.bind_some, hkq]
  exact ⟨rfl, rfl⟩

/-! ## The loops of Load -/

variable {ini : IniT}

theorem iniProperties_ini (ini : IniT) (i : Nat) :
    iniProperties ini.ini i = (ini.properties.filter fun q => q.sectionIndex = i).map
      fun q => ⟨q.sectionIndex, q.name.text, q.value.text⟩ := by
  unfold iniProperties IniT.ini
  rw [List.filter_map]
  rfl

/-- **The map of one section.** -/
theorem IniT.sectionMap_eq (h : ini.Sound) {i : Nat} (hi : i < ini.sections.length) :
    ini.sectionMap i = some (CommonLoader.sectionMap (iniProperties ini.ini i)) := by
  unfold IniT.sectionMap IniT.propertyCount CommonLoader.sectionMap
  rw [List.countP_eq_length_filter, iniProperties_ini, List.foldl_map]
  refine (foldlM_range_sim (R := fun _ (m m' : Options) => m = m') (fun m m' j q hq hm => ?_) rfl).elim
    fun m hm => hm.1.trans (congrArg some hm.2)
  obtain ⟨hname, hvalue⟩ := IniT.property_eq hi hq
  obtain ⟨hfitsn, hfitsv, -⟩ := h.properties q (List.mem_of_mem_filter (List.mem_of_getElem? hq))
  refine ⟨_, ?_, congrArg (AList.insert q.name.text q.value.text) hm⟩
  rw [hname, hvalue]
  simp only [Option.bind_eq_bind, Option.bind_some, stringOf_eq hfitsn.terminated,
    stringOf_eq hfitsv.terminated]
  rfl

/-- **The options** of the whole file. -/
theorem IniT.config_eq (h : ini.Sound) (config : Config) :
    ini.config config = some (configOfIni ini.ini config) := by
  unfold IniT.config configOfIni
  rw [IniT.length_sections]
  refine (foldlM_sim (R := fun m m' : Config => m = m') (fun m m' i hi hm => ?_) rfl).elim
    fun m hm => hm.1.trans (congrArg some hm.2)
  have hi' : i < ini.sections.length := List.mem_range.mp hi
  have hfits := h.sections _ (List.getElem_mem hi')
  -- the bound of the loop is the length of the table, so every accessor answers
  have hname : ini.ini.sections.getD i [] = (ini.sections[i]).name.text := by
    unfold IniT.ini
    rw [List.getD_eq_getElem?_getD, List.getElem?_map, List.getElem?_eq_getElem hi']
    rfl
  refine ⟨_, ?_, congrArg (AList.insert (ini.ini.sections.getD i [])
    (CommonLoader.sectionMap (iniProperties ini.ini i))) hm⟩
  unfold IniT.sectionName
  rw [List.getElem?_eq_getElem hi']
  simp only [Option.map_some, Option.bind_eq_bind, Option.bind_some, stringOf_eq hfits.terminated,
    IniT.sectionMap_eq h hi']
  rw [hname]
  rfl

/--
**Load stays inside its buffer**, whatever the file holds: the reader ends within one
round for each character, every string it keeps is terminated and every table has room
for it, and the options are those that the reader of lists finds.
-/
theorem loadBuffer_eq {contents : Bytes} (h : contents.length + 1 < 2 ^ 31) (config : Config) :
    (∀ rounds, contents.length < rounds →
      ∃ ini, IniT.load (contents ++ [0]) rounds = some ini ∧ ini.Sound ∧ ini.ini = iniLoad contents)
    ∧ loadBuffer contents config = some (configOfIni (iniLoad contents) config) := by
  refine ⟨fun rounds hrounds => IniT.load_eq h hrounds, ?_⟩
  obtain ⟨ini, hload, hsound, habs⟩ := IniT.load_eq h (Nat.lt_succ_self contents.length)
  unfold loadBuffer
  rw [hload, Option.bind_eq_bind, Option.bind_some, IniT.config_eq hsound, habs]

/-- A file with an option in the nameless section, a header that is not closed, and no end of line. -/
theorem loadBuffer_unclosed :
    loadBuffer (ascii "key = value \n[unclosed") ∅
      = some (configOfIni (iniLoad (ascii "key = value \n[unclosed")) ∅) :=
  (loadBuffer_eq (by decide +kernel) ∅).2

end CommonLoader
