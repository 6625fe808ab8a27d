import CommonLoader.Proof.Resave

/-!
# Appending a file

`Load` with `append` does not clear the map, and every way out without success comes
before the map is written. Then it assigns each section of the file, and the
assignment replaces the section there was: the store's own, or that of an earlier
header of the same name. A file always has a section without a name.
-/

namespace CommonLoader

open CText LastWins

variable {b : Build}

/-! ## The sections of a file -/

/-- What the reader found: one section after the other, each with its options. -/
def Ini.doc (ini : Ini) : Doc :=
  (List.range ini.sections.length).map fun i =>
    (ini.sections.getD i [], (iniProperties ini i).map fun p => (p.name, p.value))

/-- **An option after the section loop**: what the last section of that name says of it. -/
theorem configOfIni_get (ini : Ini) (config : Config) (name key : Bytes) :
    (configOfIni ini config).get name key
      = match last name ini.doc with
        | some options => last key options
        | none => config.get name key := by
  have hmap : ∀ {ν : Type} (g : List IniProperty → ν),
      last name ((List.range ini.sections.length).map fun i =>
          (ini.sections.getD i [], g (iniProperties ini i)))
        = (last name ((List.range ini.sections.length).map fun i =>
          (ini.sections.getD i [], iniProperties ini i))).map g := by
    intro ν g
    have := last_map (f := id) Function.injective_id g name
      ((List.range ini.sections.length).map fun i => (ini.sections.getD i [], iniProperties ini i))
    rwa [List.map_map] at this
  unfold Config.get Ini.doc
  rw [configOfIni_lookup, hmap, hmap]
  cases last name ((List.range ini.sections.length).map fun i =>
      (ini.sections.getD i [], iniProperties ini i)) with
  | none => rfl
  | some properties => exact sectionMap_lookup properties key

/-! ## What an append does -/

/-- What `ReadFile` is asked for: `GetFileSize` gives the low word of the size. -/
def readText (contents : Bytes) : Bytes := contents.take (contents.length % 2 ^ 32)

/-- The file can be read, and passes the check. -/
structure Appendable (s : Loader b) (path : WStr) (env : LoadEnv) (contents : Bytes) : Prop where
  opened : env.opened = true
  file : s.files path = some contents
  read : env.read = true
  accepted : Accepted (readText contents)

theorem loadFrom_appendable {s : Loader b} {path : WStr} {env : LoadEnv} {contents : Bytes}
    (h : Appendable s path env contents) :
    loadFrom s path true env
      = (true, { s with appConfig := configOfIni (iniLoad (readText contents)) s.appConfig }) := by
  unfold loadFrom
  dsimp only
  rw [if_pos rfl, if_pos h.opened, h.file]
  exact if_pos ⟨h.read, checkDataASCII_iff.mpr h.accepted⟩

/-- Every other way out comes before the first write. -/
theorem loadFrom_not_appendable {s : Loader b} {path : WStr} {env : LoadEnv}
    (h : ∀ contents, ¬Appendable s path env contents) : loadFrom s path true env = (false, s) := by
  unfold loadFrom
  dsimp only
  rw [if_pos rfl]
  split
  · rfl
  · -- a file that could not be opened has no contents here either
    rename_i contents hcontents
    have hopened : env.opened = true := by
      by_contra hclosed
      rw [if_neg hclosed] at hcontents
      cases hcontents
    rw [if_pos hopened] at hcontents
    refine if_neg ?_
    rintro ⟨hread, hcheck⟩
    exact h contents ⟨hopened, hcontents, hread, checkDataASCII_iff.mp hcheck⟩

/--
What appending is for: nothing happens, or every option has the value the file gives it
last, in whichever section of that name, and else the one it had.
-/
def Appends (s : Loader b) (path : WStr) (env : LoadEnv) : Prop :=
  loadFrom s path true env = (false, s)
    ∨ ∃ contents, s.files path = some contents
      ∧ (loadFrom s path true env).1 = true
      ∧ ∀ name key, (loadFrom s path true env).2.appConfig.get name key
        = (lastIn name key (iniLoad (readText contents)).doc).or (s.appConfig.get name key)

/-- The last section of each name has all keys that the store or a section before it has there. -/
def Complete (config : Config) (d : Doc) : Prop :=
  ∀ name options, last name d = some options → ∀ key,
    ((config.get name key).isSome ∨ ∃ sec ∈ d, sec.1 = name ∧ key ∈ sec.2.map Prod.fst) →
      key ∈ options.map Prod.fst

/-- Option by option: is the last section of that name enough? -/
theorem configOfIni_get_iff (ini : Ini) (config : Config) (name key : Bytes) :
    (configOfIni ini config).get name key
        = (lastIn name key ini.doc).or (config.get name key) ↔
      ∀ options, last name ini.doc = some options →
        ((config.get name key).isSome
            ∨ ∃ sec ∈ ini.doc, sec.1 = name ∧ key ∈ sec.2.map Prod.fst) →
          key ∈ options.map Prod.fst := by
  rw [configOfIni_get]
  cases hlast : last name ini.doc with
  | none =>
    rw [lastIn_eq_none hlast, Option.none_or]
    exact ⟨fun _ _ hnone => (nomatch hnone), fun _ => rfl⟩
  | some options =>
    refine (last_eq_lastIn_or hlast key _).trans ?_
    rw [lastIn_isSome, last_isSome]
    refine ⟨?_, fun hall => hall options rfl⟩
    rintro himp _ ⟨⟩
    exact himp

theorem complete_iff (ini : Ini) (config : Config) :
    Complete config ini.doc ↔ ∀ name key, (configOfIni ini config).get name key
      = (lastIn name key ini.doc).or (config.get name key) := by
  refine ⟨?_, ?_⟩
  · intro h name key
    exact (configOfIni_get_iff ini config name key).mpr fun options hlast =>
      h name options hlast key
  · intro h name options hlast key
    exact (configOfIni_get_iff ini config name key).mp (h name key) options hlast

/-- With such a file it is one equation for each option. -/
theorem appends_iff {s : Loader b} {path : WStr} {env : LoadEnv} {contents : Bytes}
    (h : Appendable s path env contents) :
    Appends s path env ↔ ∀ name key,
      (configOfIni (iniLoad (readText contents)) s.appConfig).get name key
        = (lastIn name key (iniLoad (readText contents)).doc).or (s.appConfig.get name key) := by
  unfold Appends
  rw [loadFrom_appendable h]
  refine ⟨?_, fun hget => Or.inr ⟨contents, h.file, rfl, hget⟩⟩
  rintro (hfalse | ⟨contents', hfile, _, hget⟩)
  · exact absurd (Prod.mk.inj hfalse).1 (by decide)
  · obtain rfl : contents' = contents := Option.some.inj (hfile.symm.trans h.file)
    exact hget

/--
**When an append keeps what the file does not mention**: when there is nothing to keep in
the sections of the file that their last occurrence does not define.
-/
theorem append_keeps (s : Loader b) (path : WStr) (env : LoadEnv) :
    Appends s path env ↔ ∀ contents, Appendable s path env contents →
      Complete s.appConfig (iniLoad (readText contents)).doc := by
  by_cases h : ∃ contents, Appendable s path env contents
  · obtain ⟨contents, h⟩ := h
    rw [appends_iff h, ← complete_iff]
    refine ⟨?_, fun hall => hall contents h⟩
    intro hcomplete contents' h'
    obtain rfl : contents' = contents := Option.some.inj (h'.file.symm.trans h.file)
    exact hcomplete
  · have hnone : ∀ contents, ¬Appendable s path env contents := fun contents hc => h ⟨contents, hc⟩
    exact ⟨fun _ contents hc => absurd hc (hnone contents), fun _ =>
      Or.inl (loadFrom_not_appendable hnone)⟩

/-- A store with one option, and a file with another one of the same section. -/
def appendStore : Loader .win32 :=
  setOption (oneFile (ascii "[s]\na=2\n")) (ascii "s") (ascii "b") (ascii "1")

/-- **The option is lost.** -/
theorem append_drops :
    (loadFrom appendStore [0x66] true .ok).1 = true
      ∧ appendStore.appConfig.get (ascii "s") (ascii "b") = some (ascii "1")
      ∧ ¬Appends appendStore [0x66] .ok := by
  have htrue : (loadFrom appendStore [0x66] true .ok).1 = true := by decide +kernel
  refine ⟨htrue, by decide +kernel, ?_⟩
  rintro (hfalse | ⟨contents, hfile, _, hget⟩)
  · rw [hfalse] at htrue
    cases htrue
  · obtain rfl : ascii "[s]\na=2\n" = contents := Option.some.inj hfile
    exact absurd (hget (ascii "s") (ascii "b")) (by decide +kernel)

/-- **The nameless section is always replaced**, by the options that stand before any header. -/
theorem append_nameless {s : Loader b} {path : WStr} {env : LoadEnv} {contents : Bytes}
    (h : Appendable s path env contents) (key : Bytes) :
    (loadFrom s path true env).2.appConfig.get [] key
      = last key ((iniProperties (iniLoad (readText contents)) 0).map fun p => (p.name, p.value)) := by
  have hfirst := lookup_nameless h.accepted
  rw [configOfIni_lookup, AList.lookup_empty, Option.or_none] at hfirst
  rw [loadFrom_appendable h]
  unfold Config.get
  rw [configOfIni_lookup, hfirst]
  exact sectionMap_lookup _ key

end CommonLoader
