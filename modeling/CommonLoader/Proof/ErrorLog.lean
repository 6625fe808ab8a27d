import CommonLoader.Proof.Initializers
import CommonLoader.Proof.ManagedScan

/-!
# What the log says of a scan

A scan that looks at memory and finds nothing says so in the log, with the signature spelled
out. The line can be read back: the log of a history tells which signatures were not found,
byte for byte and in order, and it tells of no others.
-/

namespace CommonLoader

open ByteMemory CText FirstMatch Runs

variable {b : Build} {s : Loader b}

/-! ## Reading a line back -/

/-- The bytes of `n` groups `\xHH`. -/
def readBytes : Nat → Bytes → Bytes
  | 0, _ => []
  | n + 1, text => UInt8.ofNat (hexNat ((text.drop 2).take 2)) :: readBytes n (text.drop 4)

/-- Pattern and mask of a line: each byte takes four characters there, and one here. -/
def readSignature (text : Bytes) : Bytes × Bytes :=
  let n := (text.length - 6) / 5
  (readBytes n (text.drop 1), (text.drop (1 + 4 * n + 4)).take n)

/-- What an error says behind its fixed words. -/
def readError (line : Bytes) : Bytes × Bytes :=
  readSignature (line.drop (ascii "Signature scan failed: ").length)

theorem length_flatMap_printByte (pattern : Bytes) :
    (pattern.flatMap fun c => [0x5C, 0x78] ++ printByte c).length = 4 * pattern.length := by
  induction pattern with
  | nil => rfl
  | cons c pattern ih =>
    rw [List.flatMap_cons, List.length_append, ih, List.length_cons]
    unfold printByte
    simp only [List.length_append, List.length_cons, List.length_nil]
    omega

theorem readBytes_flatMap (rest : Bytes) : ∀ pattern : Bytes,
    readBytes pattern.length ((pattern.flatMap fun c => [0x5C, 0x78] ++ printByte c) ++ rest) = pattern
  | [] => rfl
  | c :: pattern => by
    rw [List.flatMap_cons, List.append_assoc, List.length_cons, readBytes]
    exact congr (congrArg _ (hexNat_printByte c)) (readBytes_flatMap rest pattern)

/-- **A line is read as what it was made of.** -/
theorem readSignature_text {pattern mask : Bytes} (h : pattern.length = mask.length) :
    readSignature ([0x22] ++ (pattern.flatMap fun c => [0x5C, 0x78] ++ printByte c)
      ++ [0x22, 0x2C, 0x20, 0x22] ++ mask ++ [0x22]) = (pattern, mask) := by
  have hgroups := length_flatMap_printByte pattern
  have hlen : ([0x22] ++ (pattern.flatMap fun c => [0x5C, 0x78] ++ printByte c)
      ++ [0x22, 0x2C, 0x20, 0x22] ++ mask ++ [0x22] : Bytes).length = 5 * mask.length + 6 := by
    simp only [List.length_append, List.length_cons, List.length_nil]
    omega
  have hn : (5 * mask.length + 6 - 6) / 5 = mask.length := by omega
  have hmask : ([0x22] ++ (pattern.flatMap fun c => [0x5C, 0x78] ++ printByte c)
      ++ [0x22, 0x2C, 0x20, 0x22] : Bytes).length = 1 + 4 * mask.length + 4 := by
    simp only [List.length_append, List.length_cons, List.length_nil]
    omega
  unfold readSignature
  rw [hlen, hn]
  dsimp only
  refine Prod.ext ?_ ?_
  · rw [← h]
    simp only [List.append_assoc]
    exact readBytes_flatMap _ pattern
  · rw [← hmask, List.append_assoc _ mask, List.drop_left, List.take_left]

theorem readError_format {c : ScanCall b} (hterm : strlen b c.mask = some c.patternLength) :
    ((formatSignature b c.pattern c.mask).map fun text =>
      readError (ascii "Signature scan failed: " ++ text)) = some c.signature := by
  have hlen : (c.pattern.take c.patternLength.toNat).length
      = (c.mask.take c.patternLength.toNat).length := by
    unfold Buf.take
    rw [List.length_map, List.length_map]
  unfold formatSignature readError
  rw [hterm, Option.map_some, Option.map_some, List.drop_left, readSignature_text hlen]
  rfl

/-! ## The log of a history -/

/-- What an event hands to the log. -/
def Event.errors (s : Loader b) : Event b → List Bytes
  | .scan c => scanErrors s c
  | _ => []

/-- What the scans of a history hand to it. -/
def errorLog (s : Loader b) (es : List (Event b)) : List Bytes := collect step Event.errors s es

/--
The scan looks at memory, since the cache has no answer and the address is not null, finds
no match, and the log is not disabled.
-/
structure ScanCall.Unfound (c : ScanCall b) (s : Loader b) : Prop where
  answer : searchSignatureCache s c.key c.pBegin c.size = none
  begin : c.pBegin ≠ 0
  none : NoneBelow (c.Found s.mem) c.size.toNat
  logging : getState s disableLogging = 0

open Classical in
/-- A scan that does not find its signature. -/
noncomputable def Event.unfound (s : Loader b) : Event b → List (ScanCall b)
  | .scan c => if c.Unfound s then [c] else []
  | _ => []

/-- The scans of a history that did not find their signature. -/
noncomputable def unfoundScans (s : Loader b) (es : List (Event b)) : List (ScanCall b) :=
  collect step Event.unfound s es

theorem searchLoop_none {mem : Mem b.bits} {pattern mask : Buf} {n size : Nat} {pBegin : Addr b} :
    (searchLoop mem pattern mask n pBegin size 0).1 = none
      ↔ NoneBelow (MatchFrom mem pattern mask n pBegin) size := by
  rw [searchLoop_index]
  exact search_noneBelow fun _ => decide_eq_true_iff

theorem stateSlot_logging : stateSlot (disableLogging : SizeT b) = some 3 := by
  cases b <;> decide +kernel

/-- The search of a cached address reports nothing. -/
theorem scanUncachedErrors_silent {pattern mask : Buf} {n : SizeT b} {pBegin : Addr b} {size : SizeT b} :
    scanUncachedErrors s pattern mask n pBegin size false = [] := by
  unfold scanUncachedErrors
  split
  · rfl
  · split <;> rfl

/-- **One scan.** -/
theorem scanErrors_eq (s : Loader b) (c : ScanCall b) :
    (c.Unfound s ∧ scanErrors s c
        = ((formatSignature b c.pattern c.mask).map (ascii "Signature scan failed: " ++ ·)).toList)
      ∨ (¬ c.Unfound s ∧ scanErrors s c = []) := by
  unfold scanErrors
  -- a cached address is at most validated, and that is silent
  cases hcache : searchSignatureCache s c.key c.pBegin c.size with
  | some v =>
    refine Or.inr ⟨fun h => ?_, ?_⟩
    · cases hcache.symm.trans h.answer
    · dsimp only
      split
      · rfl
      · exact scanUncachedErrors_silent
  | none =>
    dsimp only
    unfold scanUncachedErrors
    by_cases h0 : c.pBegin = 0
    · rw [if_pos h0]
      exact Or.inr ⟨fun h => h.begin h0, rfl⟩
    · rw [if_neg h0]
      cases hr : (searchLoop s.mem c.pattern c.mask c.patternLength.toNat c.pBegin c.size.toNat 0).1 with
      | some i =>
        refine Or.inr ⟨fun h => ?_, rfl⟩
        cases hr.symm.trans (searchLoop_none.mpr h.none)
      | none =>
        have hstates : getState (setState s initSigScanFailed 1) disableLogging = getState s disableLogging :=
          getState_setState_ne (by rw [stateSlot_failed, stateSlot_logging]; decide) 1
        dsimp only
        rw [if_pos rfl, hstates]
        by_cases hlog : getState s disableLogging = 0
        · rw [if_neg (not_not.mpr hlog)]
          exact Or.inl ⟨⟨hcache, h0, searchLoop_none.mp hr, hlog⟩, rfl⟩
        · rw [if_pos hlog]
          exact Or.inr ⟨fun h => hlog h.logging, rfl⟩

/-- **One event.** -/
theorem readError_event (s : Loader b) {e : Event b}
    (hterm : ∀ c, e = .scan c → strlen b c.mask = some c.patternLength) :
    (e.errors s).map readError = (e.unfound s).map ScanCall.signature := by
  cases e with
  | scan c =>
    rw [Event.errors, Event.unfound]
    rcases scanErrors_eq s c with ⟨hunfound, herrors⟩ | ⟨hfound, herrors⟩
    · obtain ⟨text, htext, hsignature⟩ := Option.map_eq_some_iff.mp (readError_format (hterm c rfl))
      rw [herrors, if_pos hunfound, htext, Option.map_some, Option.toList_some, List.map_singleton,
        hsignature]
      rfl
    · rw [herrors, if_neg hfound]
      rfl
  | _ => rfl

/--
**The log tells which signatures were not found.** Whatever the process does, the lines that
its scans write are read back as the signatures of the scans that found nothing, in order.
-/
theorem errors_name_signatures (es : List (Event b)) (s : Loader b)
    (hterm : ∀ c ∈ scanCalls es, strlen b c.mask = some c.patternLength) :
    (errorLog s es).map readError = (unfoundScans s es).map ScanCall.signature := by
  refine collect_map_congr fun e he s' => readError_event s' ?_
  rintro c rfl
  exact hterm c (List.mem_filterMap.mpr ⟨_, he, rfl⟩)

/-- A search for one byte, with a mask that ends. -/
def letterCall (letter : UInt8) : ScanCall .win32 :=
  { scanByte letter 0x401000 0x10 with mask := fun i => if i = 0 then 0x78 else 0 }

theorem letterCall_ends : strlen .win32 (fun i => if i = 0 then 0x78 else 0) = some 1 := by
  rw [strlen_eq_some]
  refine ⟨by decide, by decide, fun j hj => ?_⟩
  obtain rfl : j = 0 := Nat.lt_one_iff.mp hj
  decide

/-- There is an `A`, and no `B`. -/
theorem errors_name_signatures_letters :
    (unfoundScans letterReady [.scan (letterCall 0x41), .scan (letterCall 0x42)]).map
      ScanCall.signature = [([0x42], [0x78])] := by
  refine (errors_name_signatures _ letterReady fun c hc => ?_).symm.trans (by decide +kernel)
  simp only [scanCalls, List.filterMap_cons, List.filterMap_nil, List.mem_cons, List.not_mem_nil,
    or_false] at hc
  rcases hc with rfl | rfl
  · exact letterCall_ends
  · exact letterCall_ends

end CommonLoader
