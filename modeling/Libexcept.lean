import Libexcept.Theorems.Command
import Libexcept.Theorems.Depth
import Libexcept.Theorems.Complete
import Libexcept.Theorems.Demangle
import Libexcept.Theorems.Lookups
import Libexcept.Theorems.Exception
import Libexcept.Theorems.ExceptionCommands
import Libexcept.Theorems.Scopes
import Libexcept.Theorems.Overlap
import Libexcept.Theorems.Lifetimes
import Libexcept.Theorems.Sanitizer
import Libexcept.Theorems.Thrown
import Libexcept.Theorems.FileInheritance
import Libexcept.Theorems.InheritedEnd
import Libexcept.Theorems.InheritedReport
import Libexcept.Theorems.InheritedOutput
import Libexcept.Theorems.ReportSignal
import Libexcept.Theorems.ReportEnd
import Libexcept.Theorems.ReportOutput
import Libexcept.Theorems.ReportAgain
