import Patchwork.BoundedLoop
import Patchwork.ByteMemory
import Patchwork.Brackets
import Patchwork.TraceWindow
import Patchwork.BranchForm
import Patchwork.Console
import Patchwork.Fs
import Patchwork.Http
import Patchwork.Update
import Patchwork.UpdateAnswers
import Patchwork.Resources
import Patchwork.CopyOutcome
import Patchwork.Descriptors
import Patchwork.DownloadLoop
import Patchwork.Util
import Patchwork.TrimmedStrings
import Patchwork.Patches
import Patchwork.TableFrame
import Patchwork.HookBranch
import Patchwork.Prx
import Patchwork.ConfigBuffer
import Patchwork.Restart
import Patchwork.Launches
import Patchwork.LogWindow
import Patchwork.JoinKey
import Patchwork.ConfiguredStrings
import Patchwork.Detection
import Patchwork.Announcement
import Patchwork.NestedStart
import Patchwork.PowerPC
import Patchwork.MachineCode
import Patchwork.ForceJoinPatch
import Patchwork.JoinPolicy
import Patchwork.ScriptBlock
import Patchwork.PatchedGame
import Patchwork.Hex
import Patchwork.Elf
import Patchwork.Collect
import Patchwork.Assignments
import Patchwork.MakePatches
import Patchwork.HookScan
import Patchwork.PatchBlocks
import Patchwork.UnsetOffsets
import Patchwork.Generator
import Patchwork.Lbpdefs
import Patchwork.Emulator
import Patchwork.SymbolCode
import Patchwork.Agreement
import Patchwork.Printf
import Patchwork.PlainFormat
import Patchwork.Logger
import Patchwork.FormatText
import Patchwork.FormatReader
import Patchwork.Rendering
import Patchwork.Numeral
import Patchwork.NumberText
import Patchwork.PrintedNumbers
import Patchwork.LogLines
import Patchwork.Yaml
import Patchwork.YamlWeights
import Patchwork.YamlMappings
import Patchwork.Strconv
import Patchwork.PatchFile
import Patchwork.GamesFile
import Patchwork.EmulatedGame
import Patchwork.Footprint
import Patchwork.Delivery
import Patchwork.Boots
import Patchwork.ProcessMemory
import Patchwork.ShellMessage
