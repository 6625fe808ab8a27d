import CommonLoader.Proof.HookLayout
import CommonLoader.Proof.ScanBounds
import CommonLoader.Proof.ScanReport
import CommonLoader.Proof.HookControl
import CommonLoader.Proof.Displaced
import CommonLoader.Proof.Assembler
import CommonLoader.Proof.IniText
import CommonLoader.Lib.LastWins
import CommonLoader.Proof.StoreRoundTrip
import CommonLoader.Proof.Persist
import CommonLoader.Proof.CacheStore
import CommonLoader.Proof.Validate
import CommonLoader.Proof.Spelling
import CommonLoader.Proof.Nops
import CommonLoader.Proof.Symbols
import CommonLoader.Proof.UserCode
import CommonLoader.Proof.IniRead
import CommonLoader.Proof.Resave
import CommonLoader.Proof.FirstRun
import CommonLoader.Proof.HookLength
import CommonLoader.Proof.Protection
import CommonLoader.Proof.Append
import CommonLoader.Proof.ManagedScan
import CommonLoader.Model.AssemblyLoader
import CommonLoader.Proof.Codes
import CommonLoader.Lib.Cursor
import CommonLoader.Model.IniPointer
import CommonLoader.Proof.IniPointer
import CommonLoader.Proof.LoadBuffer
import CommonLoader.Proof.SaveBuffer
import CommonLoader.Lib.Machine
import CommonLoader.Model.Session
import CommonLoader.Proof.HookRuns
import CommonLoader.Lib.Runs
import CommonLoader.Proof.SessionProtection
import CommonLoader.Proof.Initializers
import CommonLoader.Proof.Launches
import CommonLoader.Proof.UserOptions
import CommonLoader.Lib.Mixing
import CommonLoader.Proof.HashSeparation
import CommonLoader.Proof.Neighbours
import CommonLoader.Proof.PatchRuns
import CommonLoader.Proof.HookStacks
import CommonLoader.Model.Host
import CommonLoader.Proof.Host
import CommonLoader.Proof.ErrorLog
import CommonLoader.Proof.SessionLog
import CommonLoader.Proof.DataWrites
import CommonLoader.Proof.CallHooks
