import CommonLoader.Proof.ErrorLog

/-!
# What the log says of a session

Three things go into the error log: a signature that was not found, a source the assembler
has skipped statements of, and a hook with such a source, by its address; the statements
follow one a line, indented. The log of a session can be read back to all of this, so
nothing that fails is left out and nothing is reported that has not failed.
-/

namespace CommonLoader

open ByteMemory CText Runs

variable {b : Build} {s : Loader b} (strerror : BitVec 32 → Bytes)

/-- What is printed of an error; `line` is a C string in a larger buffer. -/
def AssemblerError.printed (err : AssemblerError) : AssemblerError :=
  { err with line := cstr err.line }

deriving instance DecidableEq for AssemblerError

/-- Something that went wrong. -/
inductive Report where
  | signature (pattern mask : Bytes)
  | assembly (errors : List AssemblerError)
  | hook (address : Nat) (errors : List AssemblerError)
deriving DecidableEq

/-! ## Reading the log back -/

/-- An indented line. -/
def readAssemblerError (line : Bytes) : AssemblerError :=
  let lineNum := takeNumber 10 (line.drop (ascii "    (").length)
  let lineChar := takeNumber 10 (lineNum.2.drop (ascii ",").length)
  let errNum := takeNumber 10 (lineChar.2.drop (ascii "): error ").length)
  let text := errNum.2.drop (ascii ": '").length
  let strerrorLen := (strerror (BitVec.ofNat 32 errNum.1)).length
  ⟨lineNum.1, lineChar.1, BitVec.ofNat 32 errNum.1,
    text.take (text.length - ((ascii "': ").length + strerrorLen))⟩

/-- A line that is not, with the errors that follow it. -/
def readMessage (line : Bytes) (errors : List AssemblerError) : Report :=
  if line.head? = some 0x53 then .signature (readError line).1 (readError line).2
  else if line = ascii "Error assembling statements." then .assembly errors
  else
    .hook (readDigits 16
      (line.drop (ascii "Error assembling statements in hook at 0x").length).dropLast) errors

/-- The lines are taken from the last one on: errors are kept until their message comes. -/
def readLine (line : Bytes) (later : List AssemblerError × List Report) :
    List AssemblerError × List Report :=
  if line.head? = some 0x20 then (readAssemblerError strerror line :: later.1, later.2)
  else ([], readMessage line later.1 :: later.2)

def readLog (lines : List Bytes) : List Report := (lines.foldr (readLine strerror) ([], [])).2

/-! ## Lines -/

theorem readAssemblerError_text (err : AssemblerError) :
    readAssemblerError strerror (errorText strerror (ascii "    ") err) = err.printed := by
  have hparen : ascii "    (" = ascii "    " ++ ascii "(" := by decide +kernel
  have hcomma : ascii "," = [0x2C] := by decide +kernel
  have herror : ascii "): error " = 0x29 :: ascii ": error " := by decide +kernel
  have hquote : ascii ": '" = 0x3A :: ascii " '" := by decide +kernel
  -- the line from each of its numbers on; each number ends at the character after it
  let text := cstr err.line ++ (ascii "': " ++ strerror err.errNum)
  let fromErrNum := printDigits 10 err.errNum.toNat ++ 0x3A :: (ascii " '" ++ text)
  let fromLineChar := printDigits 10 err.lineChar ++ 0x29 :: (ascii ": error " ++ fromErrNum)
  have hline : errorText strerror (ascii "    ") err
      = ascii "    (" ++ (printDigits 10 err.lineNum ++ 0x2C :: fromLineChar) := by
    unfold errorText
    rw [hparen, hcomma, herror, hquote]
    simp only [List.append_assoc, List.cons_append, List.nil_append, fromLineChar, fromErrNum, text]
  have hlineNum : takeNumber 10 ((errorText strerror (ascii "    ") err).drop (ascii "    (").length)
      = (err.lineNum, 0x2C :: fromLineChar) := by
    rw [hline, List.drop_left]
    exact takeNumber_printDigits (by decide) (by decide) _ (by decide) _
  have hlineChar : takeNumber 10 ((0x2C :: fromLineChar).drop (ascii ",").length)
      = (err.lineChar, 0x29 :: (ascii ": error " ++ fromErrNum)) := by
    rw [hcomma]
    exact takeNumber_printDigits (by decide) (by decide) _ (by decide) _
  have herrNum : takeNumber 10 ((0x29 :: (ascii ": error " ++ fromErrNum)).drop
      (ascii "): error ").length) = (err.errNum.toNat, 0x3A :: (ascii " '" ++ text)) := by
    rw [herror, List.length_cons, List.drop_succ_cons, List.drop_left]
    exact takeNumber_printDigits (by decide) (by decide) _ (by decide) _
  have htext : (0x3A :: (ascii " '" ++ text)).drop (ascii ": '").length = text := by
    rw [hquote, List.length_cons, List.drop_succ_cons, List.drop_left]
  have hcstr : text.take (text.length - ((ascii "': ").length + (strerror err.errNum).length))
      = cstr err.line := by
    rw [List.length_append, List.length_append, Nat.add_sub_cancel, List.take_left]
  unfold readAssemblerError AssemblerError.printed
  simp only [hlineNum, hlineChar, herrNum, htext, BitVec.ofNat_toNat, BitVec.setWidth_eq, hcstr]

theorem head_errorText (err : AssemblerError) :
    (errorText strerror (ascii "    ") err).head? = some 0x20 := by
  have hindent : ascii "    " = 0x20 :: ascii "   " := by decide +kernel
  unfold errorText
  simp only [hindent, List.cons_append, List.head?_cons]

theorem readLine_errors (errors : List AssemblerError) (reports : List Report) :
    (errors.map (errorText strerror (ascii "    "))).foldr (readLine strerror) ([], reports)
      = (errors.map AssemblerError.printed, reports) := by
  induction errors with
  | nil => rfl
  | cons err errors ih =>
    rw [List.map_cons, List.foldr_cons, ih, readLine, if_pos (head_errorText strerror err),
      readAssemblerError_text]
    rfl

theorem head_hookErrorMessage (address : Addr b) : (hookErrorMessage address).head? = some 0x45 := by
  have hfirst : ascii "Error assembling statements in hook at 0x"
      = 0x45 :: ascii "rror assembling statements in hook at 0x" := by decide +kernel
  unfold hookErrorMessage
  simp only [hfirst, List.cons_append, List.head?_cons]

/-- The address of a hook is read back from its message. -/
theorem readMessage_hook (address : Addr b) (errors : List AssemblerError) :
    readMessage (hookErrorMessage address) errors = .hook address.toNat errors := by
  -- the other message is shorter than what this one begins with
  have hlonger : hookErrorMessage address ≠ ascii "Error assembling statements." := by
    intro heq
    have hlen := congrArg List.length heq
    have hprefix : (ascii "Error assembling statements in hook at 0x").length = 41 := by decide +kernel
    have hother : (ascii "Error assembling statements.").length = 28 := by decide +kernel
    unfold hookErrorMessage at hlen
    rw [List.length_append, List.length_append] at hlen
    omega
  have hdigits : ((hookErrorMessage address).drop
      (ascii "Error assembling statements in hook at 0x").length).dropLast
        = (printDigits 16 address.toNat).leftpad 8 0x30 := by
    unfold hookErrorMessage
    rw [List.append_assoc, List.drop_left]
    exact List.dropLast_concat
  unfold readMessage
  rw [head_hookErrorMessage, if_neg (by decide), if_neg hlonger, hdigits, readDigits_leftpad,
    readDigits_printDigits (by decide) (by decide)]

/-! ## Calls -/

/-- What there is to say of a call that has failed. -/
def Call.failure (s : Loader b) : Call b → List Report
  | .scan c => [.signature c.signature.1 c.signature.2]
  | .writeASMHook env instructions address _ _ =>
      [.hook address.toNat ((compileHook env s instructions).errors.map AssemblerError.printed)]
  | .assembleInstructions assembler instructions =>
      [.assembly ((compileAssembly assembler s instructions 0).errors.map AssemblerError.printed)]
  | _ => []

open Classical in
/-- What a call has to report, as long as the log is enabled. -/
noncomputable def Call.reports (s : Loader b) (c : Call b) : List Report :=
  if (c.ScanFails s ∨ c.AssemblyFails s) ∧ getState s disableLogging = 0 then c.failure s else []

/-- What has failed in a session. -/
noncomputable def failures (s : Loader b) (cs : List (Call b)) : List Report :=
  collect serve Call.reports s cs

/-- `OnError` with a message. -/
theorem onErrorErrors_message (s : Loader b) (message : Bytes) (result : AssemblerResult b) :
    onErrorErrors strerror s (some message) result
      = if result.errors ≠ [] ∧ getState s disableLogging = 0 then
          message :: result.errors.map (errorText strerror (ascii "    "))
        else [] := by
  have hstates : getState (setState s initAssemblyFailed 1) disableLogging = getState s disableLogging :=
    getState_setState_ne (by rw [stateSlot_assembly, stateSlot_logging]; decide) 1
  unfold onErrorErrors
  by_cases hnone : result.errors = []
  · rw [if_pos hnone, if_neg fun h => h.1 hnone]
  · dsimp only
    rw [if_neg hnone, hstates]
    by_cases hlog : getState s disableLogging = 0
    · have hreported : result.errors ≠ [] ∧ getState s disableLogging = 0 := ⟨hnone, hlog⟩
      rw [if_neg (not_not.mpr hlog), if_pos hreported]
      rfl
    · rw [if_pos hlog, if_neg fun h => hlog h.2]

theorem readLine_onError {message : Bytes} (hhead : message.head? ≠ some 0x20)
    (result : AssemblerResult b) (reports : List Report) :
    (onErrorErrors strerror s (some message) result).foldr (readLine strerror) ([], reports)
      = ([], (if result.errors ≠ [] ∧ getState s disableLogging = 0 then
          [readMessage message (result.errors.map AssemblerError.printed)] else []) ++ reports) := by
  rw [onErrorErrors_message]
  split
  · rw [List.foldr_cons, readLine_errors, readLine, if_neg hhead]
    rfl
  · rfl

theorem head_scanError (text : Bytes) : (ascii "Signature scan failed: " ++ text).head? = some 0x53 := by
  have hfirst : ascii "Signature scan failed: " = 0x53 :: ascii "ignature scan failed: " := by
    decide +kernel
  rw [hfirst, List.cons_append, List.head?_cons]

theorem scan_fails_iff {c : ScanCall b} :
    (((Call.scan c).ScanFails s ∨ (Call.scan c).AssemblyFails s) ∧ getState s disableLogging = 0)
      ↔ c.Unfound s :=
  ⟨fun ⟨h, hlog⟩ => h.elim (fun h => ⟨h.1, h.2.1, h.2.2, hlog⟩) False.elim,
    fun h => ⟨Or.inl ⟨h.answer, h.begin, h.none⟩, h.logging⟩⟩

open Classical in
/-- **One call.** -/
theorem readLine_call {c : Call b}
    (hterm : ∀ call, c = .scan call → strlen b call.mask = some call.patternLength)
    (reports : List Report) :
    (serveErrors strerror s c).foldr (readLine strerror) ([], reports)
      = ([], c.reports s ++ reports) := by
  unfold Call.reports
  cases c with
  | scan call =>
    rw [serveErrors]
    rcases scanErrors_eq s call with ⟨hunfound, herrors⟩ | ⟨hfound, herrors⟩
    · obtain ⟨text, htext, hsignature⟩ := Option.map_eq_some_iff.mp (readError_format (hterm call rfl))
      have hread : readMessage (ascii "Signature scan failed: " ++ text) []
          = .signature call.signature.1 call.signature.2 := by
        rw [readMessage, if_pos (head_scanError text), hsignature]
      rw [herrors, htext, if_pos (scan_fails_iff.mpr hunfound), Option.map_some, Option.toList_some,
        List.foldr_cons, List.foldr_nil, readLine, head_scanError, if_neg (by decide), hread]
      rfl
    · rw [herrors, if_neg (mt scan_fails_iff.mp hfound)]
      rfl
  | writeASMHook env instructions address behavior parameter =>
    have hhead : (hookErrorMessage address).head? ≠ some 0x20 := by
      rw [head_hookErrorMessage]
      decide
    rw [serveErrors]
    -- a hook that is refused says nothing
    by_cases hw : MemoryProvider.isMemoryWritable s address = true
    · rw [if_pos hw, readLine_onError strerror hhead, readMessage_hook]
      exact congrArg (fun l => ([], l ++ reports)) (if_congr
        (and_congr_left' ⟨fun h => Or.inr ⟨hw, h⟩, fun h => (h.elim False.elim id).2⟩) rfl rfl)
    · rw [if_neg hw, if_neg fun h => hw (h.1.elim False.elim id).1]
      rfl
  | assembleInstructions assembler instructions =>
    have hhead : (ascii "Error assembling statements.").head? = some 0x45 := by decide +kernel
    have hread : ∀ errors, readMessage (ascii "Error assembling statements.") errors
        = .assembly errors := by
      intro errors
      rw [readMessage, hhead, if_neg (by decide), if_pos rfl]
    rw [serveErrors, readLine_onError strerror (by rw [hhead]; decide), hread]
    exact congrArg (fun l => ([], l ++ reports)) (if_congr
      (and_congr_left' ⟨Or.inr, fun h => h.elim False.elim id⟩) rfl rfl)
  | writeMemory kind address data => rw [if_neg fun h => h.1.elim id id]; rfl
  | nopInstructions csDisasm beyond address count => rw [if_neg fun h => h.1.elim id id]; rfl
  | setSymbol name value => rw [if_neg fun h => h.1.elim id id]; rfl
  | removeSymbol name => rw [if_neg fun h => h.1.elim id id]; rfl
  | setState state value => rw [if_neg fun h => h.1.elim id id]; rfl
  | setStateFlag state flag set => rw [if_neg fun h => h.1.elim id id]; rfl
  | saveOptions env => rw [if_neg fun h => h.1.elim id id]; rfl

/--
**The log tells what has failed.** From the lines of any session one reads back, in order,
every signature that was not found, every source with statements that did not assemble, with
the address of the hook it was for, and each of these statements with its place and its error.
-/
theorem log_tells_failures (s : Loader b) (cs : List (Call b))
    (hterm : ∀ call, Call.scan call ∈ cs → strlen b call.mask = some call.patternLength) :
    readLog strerror (sessionErrors strerror s cs) = failures s cs := by
  have hread : (sessionErrors strerror s cs).foldr (readLine strerror) ([], []) = ([], failures s cs) :=
    collect_foldr fun c hc _ reports =>
      readLine_call strerror (fun call hcall => hterm call (hcall ▸ hc)) reports
  rw [readLog, hread]

/-- The table of texts, as far as it is used below. -/
def mnemonicError (err : BitVec 32) : Bytes :=
  if err = 514 then ascii "Invalid mnemonic (KS_ERR_ASM_MNEMONICFAIL)" else ascii "Unknown error"

/-- The hook with a no-op, and a second statement that is mistyped. -/
def mistypedEnv : HookEnv .win32 :=
  { letterEnv with assembler := fun _ _ _ => ⟨false, 1, [⟨2, 1, 514, ascii "noop"⟩], 0, [0x90]⟩ }

/-- There is an `A`, and no `B`. -/
def failingSession : List (Call .win32) :=
  [.scan (letterCall 0x41),
    .writeASMHook mistypedEnv (ascii "nop\nnoop") 0x401000 eHookBehaviorAfter eHookParameterJump,
    .scan (letterCall 0x42)]

theorem log_tells_failures_mistyped :
    failures letterReady failingSession
      = [.hook 0x401000 [⟨2, 1, 514, ascii "noop"⟩], .signature [0x42] [0x78]] := by
  refine (log_tells_failures mnemonicError letterReady failingSession fun call hc => ?_).symm.trans
    (by decide +kernel)
  simp only [failingSession, List.mem_cons, Call.scan.injEq, List.not_mem_nil, or_false, reduceCtorEq,
    false_or] at hc
  rcases hc with rfl | rfl
  · exact letterCall_ends
  · exact letterCall_ends

end CommonLoader
