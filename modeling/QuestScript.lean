import QuestScript.Script
import QuestScript.Settings
import QuestScript.Proofs.BlockMachine
import QuestScript.Proofs.Ending
import QuestScript.Proofs.BlockGrammar
import QuestScript.Proofs.Spelling
import QuestScript.Proofs.SourceTree
import QuestScript.Proofs.ImportCache
import QuestScript.Proofs.ScriptGrammar
import QuestScript.Proofs.SessionCalls
import QuestScript.Proofs.InlineImport
import QuestScript.Proofs.ScriptRun
import QuestScript.Proofs.Unreferenced
import QuestScript.Proofs.ScriptAppend
import QuestScript.Proofs.ImportOrigin
import QuestScript.Proofs.TopLevel
import QuestScript.Proofs.Invariant
import QuestScript.Proofs.ScriptStop
import QuestScript.Proofs.LineGrammar
import QuestScript.Proofs.LineLanguage
import QuestScript.Proofs.WellFormed
import QuestScript.Proofs.AnsweredOnce
import QuestScript.Proofs.SessionUse
import QuestScript.Proofs.ReadCount
import QuestScript.Proofs.PackOnDisk
import QuestScript.Proofs.PackRoot
import QuestScript.Proofs.Simultaneous
import QuestScript.Proofs.Instances
import QuestScript.Proofs.FrameLines
import QuestScript.Proofs.NestedLine
import QuestScript.Proofs.BlockContext
import QuestScript.Proofs.ScriptFaults
import QuestScript.Proofs.PlainText
import QuestScript.Proofs.Diagnostics
import QuestScript.Proofs.DiskWalk
