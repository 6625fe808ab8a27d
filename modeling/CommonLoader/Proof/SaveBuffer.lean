import CommonLoader.Proof.LoadBuffer

/-!
# Save, over its buffer

`ini_save` runs twice: once without a buffer, to count, and once with a buffer of the
size it has counted. Every write is guarded by the size, so that a buffer of any size
gets the front of the text and no more, and the buffer of `Save` gets all of it.
-/

namespace CommonLoader

open CText Cursor

/-! ## One pass -/

/-- After this much text: its front stands in the buffer, behind it is what was there. -/
def IniOut.after (size : Nat) (data : Option Bytes) (text : Bytes) : IniOut :=
  ⟨data.map fun data => text.take size ++ data.drop (text.take size).length, text.length⟩

/-- The size is the one of the buffer, or less. -/
def Sized (size : Nat) (data : Option Bytes) : Prop := ∀ buffer ∈ data, size ≤ buffer.length

variable {size : Nat} {data : Option Bytes}

theorem IniOut.emit_after (h : Sized size data) (text : Bytes) (c : UInt8) :
    (IniOut.after size data text).emit size c = some (IniOut.after size data (text ++ [c])) := by
  cases data with
  | none =>
    unfold IniOut.after IniOut.emit
    rw [List.length_append]
    rfl
  | some buffer =>
    have hsize : size ≤ buffer.length := h buffer rfl
    unfold IniOut.after IniOut.emit
    simp only [Option.map_some]
    by_cases hroom : text.length < size
    · -- the character goes to its place
      have hdrop : buffer.drop text.length = buffer[text.length] :: buffer.drop (text.length + 1) :=
        List.drop_eq_getElem_cons (by omega)
      have hlen : (text ++ [c]).length = text.length + 1 := by
        rw [List.length_append, List.length_singleton]
      unfold put
      rw [if_pos hroom, List.take_of_length_le (show text.length ≤ size by omega),
        List.take_of_length_le (show (text ++ [c]).length ≤ size by omega), hdrop,
        if_pos (by rw [List.length_append, List.length_cons]; omega), List.set_append_right _ _ (Nat.le_refl _), hlen,
        Nat.sub_self, List.set_cons_zero, List.append_assoc, List.singleton_append, Option.map_some]
    · -- it is counted only
      rw [if_neg hroom, List.take_append_of_le_length (by omega), List.length_append]
      rfl

/-- A text of characters, written one by one. -/
theorem IniOut.emitString_after (h : Sized size data) {chars : Bytes} (h0 : (0 : UInt8) ∈ chars)
    (text : Bytes) :
    (IniOut.after size data text).emitString size chars
      = some (IniOut.after size data (text ++ cstr chars)) := by
  obtain ⟨front, rest, rfl⟩ := List.append_of_mem h0
  have hpoints : PointsTo (front ++ 0 :: rest) 0 front := ⟨rest, rfl⟩
  have hstrlen := strlenAt_eq hpoints
  rw [← cstr_append_nul front rest] at hstrlen
  unfold IniOut.emitString
  rw [hstrlen, Option.bind_eq_bind, Option.bind_some]
  obtain ⟨out, hout, rfl⟩ := foldlM_range_sim
    (R := fun _ out text => out = IniOut.after size data text)
    (f := fun out i => do out.emit size (← (front ++ 0 :: rest)[i]?))
    (g := fun text c => text ++ [c]) (l := cstr (front ++ 0 :: rest)) (c := text)
    (fun out text i c hc hout => by
      obtain ⟨hi, rfl⟩ := List.getElem?_eq_some_iff.mp hc
      have hlook := List.prefix_iff_getElem?.mp (List.takeWhile_prefix (fun c : UInt8 => c ≠ 0)
        (l := front ++ 0 :: rest)) i hi
      rw [hlook, hout]
      exact ⟨_, IniOut.emit_after h text _, rfl⟩) rfl
  rw [hout, List.foldl_append_eq_append, ← List.flatMap_def, List.flatMap_singleton']

/-- The header of a section. -/
theorem IniOut.emitHeader_after (h : Sized size data) {name : Bytes} (h0 : (0 : UInt8) ∈ name)
    (text : Bytes) :
    (IniOut.after size data text).emitHeader size name
      = some (IniOut.after size data (text ++ iniSaveHeader (cstr name))) := by
  obtain ⟨front, rest, hname⟩ := List.append_of_mem h0
  have hpoints : PointsTo name 0 front := ⟨rest, hname⟩
  have hstrlen := strlenAt_eq hpoints
  rw [← cstr_append_nul front rest, ← hname] at hstrlen
  unfold IniOut.emitHeader iniSaveHeader
  rw [hstrlen, Option.bind_eq_bind, Option.bind_some]
  split
  · simp only [Option.bind_eq_bind, Option.bind_some, IniOut.emit_after h,
      IniOut.emitString_after h h0]
    simp
  · rw [List.append_nil]
    rfl

/-- One property line. -/
theorem IniOut.emitProperty_after (h : Sized size data) {q : IniInternalProperty}
    (hname : q.name.Fits 32) (hvalue : q.value.Fits 64) (text : Bytes) :
    (IniOut.after size data text).emitProperty size q
      = some (IniOut.after size data
          (text ++ iniSaveProperty ⟨q.sectionIndex, q.name.text, q.value.text⟩)) := by
  unfold IniOut.emitProperty iniSaveProperty
  simp only [Option.bind_eq_bind, Option.bind_some, IniOut.emit_after h,
    IniOut.emitString_after h hname.terminated, IniOut.emitString_after h hvalue.terminated]
  simp [IniChars.text]

/-! ## The section loop -/

/-- What one section adds to the text. -/
def iniSaveRound (ini : Ini) (data : Bytes) (s : Nat) (name : Bytes) : Bytes :=
  let data := data ++ iniSaveHeader name ++ (iniProperties ini s).flatMap iniSaveProperty
  if 0 < data.length then data ++ [0x0A] else data

theorem iniSaveLoop_eq_foldl {ini : Ini} : ∀ (names : List Bytes) (s : Nat) (data : Bytes),
    iniSaveLoop ini names s data
      = (names.foldl (fun (r : Bytes × Nat) name => (iniSaveRound ini r.1 r.2 name, r.2 + 1))
          (data, s)).1
  | [], _, _ => rfl
  | _ :: names, s, _ => iniSaveLoop_eq_foldl names (s + 1) _

theorem foldl_iniSaveProperty (s : Nat) : ∀ (l : List IniInternalProperty) (text : Bytes),
    l.foldl (fun text q => if q.sectionIndex = s then
        text ++ iniSaveProperty ⟨q.sectionIndex, q.name.text, q.value.text⟩ else text) text
      = text ++ ((l.filter fun q => q.sectionIndex = s).map
          fun q => ⟨q.sectionIndex, q.name.text, q.value.text⟩).flatMap iniSaveProperty
  | [], text => (List.append_nil text).symm
  | q :: l, text => by
    rw [List.foldl_cons, foldl_iniSaveProperty s l]
    by_cases hq : q.sectionIndex = s
    · rw [if_pos hq, List.filter_cons_of_pos (by simpa using hq), List.map_cons, List.flatMap_cons,
        List.append_assoc]
    · rw [if_neg hq, List.filter_cons_of_neg (by simpa using hq)]

/-- **One section.** -/
theorem IniT.saveSection_after {ini : IniT} (hini : ini.Sound) (h : Sized size data) {s : Nat}
    {q : IniInternalSection} (hq : ini.sections[s]? = some q) (text : Bytes) :
    ini.saveSection size (IniOut.after size data text) s
      = some (IniOut.after size data (iniSaveRound ini.ini text s q.name.text)) := by
  have hfits := hini.sections q (List.mem_of_getElem? hq)
  obtain ⟨out, hout, rfl⟩ := foldlM_sim (R := fun out text => out = IniOut.after size data text)
    (f := fun out q => if q.sectionIndex = s then out.emitProperty size q else some out)
    (g := fun text q => if q.sectionIndex = s then
        text ++ iniSaveProperty ⟨q.sectionIndex, q.name.text, q.value.text⟩ else text)
    (l := ini.properties) (c := text ++ iniSaveHeader q.name.text)
    (fun out text q hq hout => by
      obtain ⟨hname, hvalue, -⟩ := hini.properties q hq
      rw [hout]
      by_cases hs : q.sectionIndex = s
      · rw [if_pos hs, if_pos hs]
        exact ⟨_, IniOut.emitProperty_after h hname hvalue text, rfl⟩
      · rw [if_neg hs, if_neg hs]
        exact ⟨_, rfl, rfl⟩) rfl
  unfold IniT.saveSection iniSaveRound
  rw [hq]
  simp only [Option.bind_eq_bind, Option.bind_some, IniOut.emitHeader_after h hfits.terminated]
  rw [show iniSaveHeader (cstr q.name.chars) = iniSaveHeader q.name.text from rfl, hout,
    foldl_iniSaveProperty, ← iniProperties_ini]
  simp only [Option.bind_some]
  generalize text ++ iniSaveHeader q.name.text
    ++ (iniProperties ini.ini s).flatMap iniSaveProperty = text
  rw [show (IniOut.after size data text).pos = text.length from rfl]
  split
  · exact IniOut.emit_after h text 0x0A
  · rfl

/--
**One pass of `ini_save`**: the count is the length of the text and its terminator, and
the buffer, if there is one, has as much of them at its front as the size allows and is
otherwise what it was. The count must be an `int`.
-/
theorem IniT.save_eq {ini : IniT} (hini : ini.Sound) (h : Sized size data)
    (hpos : (iniSave ini.ini).length + 1 < 2 ^ 31) :
    ini.save data size = some (IniOut.after size data (iniSave ini.ini ++ [0])) := by
  have hstart : (⟨data, 0⟩ : IniOut) = IniOut.after size data [] := by
    unfold IniOut.after
    cases data with
    | none => rfl
    | some buffer => simp
  -- the loop variable is carried along as the number of the section
  obtain ⟨out, hout, hr⟩ := foldlM_range_sim
    (R := fun i out (r : Bytes × Nat) => out = IniOut.after size data r.1 ∧ r.2 = i)
    (f := fun out s => ini.saveSection size out s)
    (g := fun (r : Bytes × Nat) q => (iniSaveRound ini.ini r.1 r.2 q.name.text, r.2 + 1))
    (l := ini.sections) (b := ⟨data, 0⟩) (c := ([], 0))
    (fun out r i q hq hout => by
      obtain ⟨rfl, rfl⟩ := hout
      exact ⟨_, IniT.saveSection_after hini h hq r.1, rfl, rfl⟩) ⟨hstart, rfl⟩
  have htext : iniSave ini.ini = (ini.sections.foldl
      (fun (r : Bytes × Nat) q => (iniSaveRound ini.ini r.1 r.2 q.name.text, r.2 + 1)) ([], 0)).1 := by
    unfold iniSave
    rw [iniSaveLoop_eq_foldl]
    exact congrArg Prod.fst List.foldl_map
  unfold IniT.save
  have hend : (IniOut.after size data (iniSave ini.ini ++ [0])).pos < 2 ^ 31 := by
    rwa [IniOut.after, List.length_append, List.length_singleton]
  rw [hout, Option.bind_eq_bind, Option.bind_some, hr.1, ← htext, IniOut.emit_after h,
    Option.bind_some, if_pos hend]
  rfl

/-! ## Both passes -/

/-- Every string has a length that an `int` holds. -/
def Config.Short (config : Config) : Prop :=
  ∀ sec ∈ config.entries, sec.1.length + 1 < 2 ^ 31
    ∧ ∀ p ∈ sec.2.entries, p.1.length + 1 < 2 ^ 31 ∧ p.2.length + 1 < 2 ^ 31

/-- A `std::string` and the terminator behind it. -/
theorem pointsTo_string (text : Bytes) : PointsTo (text ++ [0]) 0 text := ⟨[], rfl⟩

/-- **The tables are built** as the lists are. -/
theorem iniTOfConfig_eq {config : Config} (h : config.Short) (order : ConfigOrder) :
    ∃ ini, iniTOfConfig order config = some ini ∧ ini.Sound ∧ ini.ini = iniOfConfig order config := by
  unfold iniTOfConfig iniOfConfig
  refine foldlM_sim (R := fun (ini : IniT) i => ini.Sound ∧ ini.ini = i) ?_
    ⟨IniT.create_sound, IniT.create_ini⟩
  rintro ini _ sec hsec ⟨hini, rfl⟩
  obtain ⟨hname, hopts⟩ := h sec ((order.sections.perm _).mem_iff.mp hsec)
  obtain ⟨ini', hadd, hsound, habs⟩ := ini.sectionAdd_eq hini (pointsTo_string sec.1)
    (Nat.le_succ _) hname
  rw [hadd, Option.bind_eq_bind, Option.bind_some]
  have hsid : (iniSectionAdd ini.ini sec.1 sec.1.length).2 = ini.sections.length :=
    IniT.length_sections ini
  dsimp only
  rw [hsid, ← habs]
  unfold iniAddOptions
  refine foldlM_sim (R := fun (ini : IniT) i => ini.Sound ∧ ini.ini = i) ?_ ⟨hsound, rfl⟩
  rintro ini _ p hp ⟨hini, rfl⟩
  obtain ⟨hkey, hvalue⟩ := hopts p (((order.options sec.1).perm _).mem_iff.mp hp)
  obtain ⟨ini'', hadd', hsound', -, habs'⟩ := ini.propertyAdd_eq hini _ (pointsTo_string p.1)
    (pointsTo_string p.2) (Nat.le_succ _) (Nat.le_succ _) hkey hvalue
  exact ⟨ini'', hadd', hsound', habs'⟩

/--
**Save stays inside its buffer**: the tables it builds are sound, a pass of `ini_save`
over a buffer of any size writes the front of the text and nothing else, and the two
passes together hand the whole text to `WriteFile`, without its terminator.
-/
theorem saveBuffer_eq {config : Config} (h : config.Short) (order : ConfigOrder)
    (hpos : (saveText order config).length + 1 < 2 ^ 31) :
    (∃ ini, iniTOfConfig order config = some ini ∧ ini.Sound
      ∧ ∀ data size, Sized size data →
          ini.save data size = some (IniOut.after size data (saveText order config ++ [0])))
    ∧ saveBuffer order config = some (saveText order config) := by
  obtain ⟨ini, hini, hsound, habs⟩ := iniTOfConfig_eq h order
  have hpass : ∀ data size, Sized size data →
      ini.save data size = some (IniOut.after size data (saveText order config ++ [0])) := by
    intro data size hsized
    have hsave : iniSave ini.ini = saveText order config := by
      rw [habs]
      rfl
    rw [IniT.save_eq hsound hsized (by rwa [hsave]), hsave]
  refine ⟨⟨ini, hini, hsound, hpass⟩, ?_⟩
  have hlen : (saveText order config ++ [0]).length = (saveText order config).length + 1 := by
    rw [List.length_append, List.length_singleton]
  unfold saveBuffer
  rw [hini, Option.bind_eq_bind, Option.bind_some, hpass none 0 fun _ hb => by cases hb]
  simp only [Option.bind_eq_bind, Option.bind_some]
  rw [hpass _ _ fun buffer hb => by
    obtain rfl := Option.some.inj hb
    exact Nat.le_of_eq List.length_replicate.symm]
  unfold IniOut.after slice
  simp only [Option.bind_some, Option.map_some]
  rw [List.take_of_length_le (Nat.le_refl _), hlen, Nat.add_sub_cancel]
  simp

/-- An option with an empty value, and the strings of the library around it. -/
theorem saveBuffer_empty_value :
    saveBuffer SaveEnv.ok.order (Config.set ∅ (ascii "Name") (ascii "Key") [])
      = some (saveText SaveEnv.ok.order (Config.set ∅ (ascii "Name") (ascii "Key") [])) :=
  (saveBuffer_eq (by unfold Config.Short; decide +kernel) SaveEnv.ok.order (by decide +kernel)).2

end CommonLoader
