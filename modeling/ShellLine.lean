import ShellLine.Main
import ShellLine.Proofs.DisplayRoundTrip
import ShellLine.Proofs.OpenQuotes
import ShellLine.Proofs.QuotedWords
import ShellLine.Proofs.RunningAside
import ShellLine.Proofs.ShellWords
import ShellLine.Proofs.ShellCell
import ShellLine.Proofs.ChosenShell
import ShellLine.Proofs.SplitPreview
import ShellLine.Proofs.AlikeSessions
import ShellLine.Proofs.DefaultShield
import ShellLine.Proofs.ActiveCharacters
import ShellLine.Proofs.KeptText
import ShellLine.Proofs.UnseenText
import ShellLine.Proofs.DisplayedWords
import ShellLine.Proofs.ProgramLookup
import ShellLine.Proofs.Numerals
import ShellLine.Proofs.LeavingStatus
import ShellLine.Proofs.ScriptLifetime
import ShellLine.Proofs.TidySessions
import ShellLine.Proofs.ScanStates
