import Inlay.CommandLine.Arguments
import Inlay.Text.Number
import Inlay.Text.Terminal

namespace Inlay.CommandLine

inductive Rejection where
  /-- No option has this name; the dashes belong to it. -/
  | unknown (shown : Text)
  | missingValue (p : Parameter)
  | invalidNumber (p : Parameter) (value : Text) (fault : Text.NumberFault)
  | repeated (n : Name)
  /-- An option that takes no value has been given one. -/
  | unwantedValue (n : Name) (value : Text)
  | notText
  deriving DecidableEq, Repr

namespace Rejection

/-- Part of the command line between quotes, in plain text. -/
def quoted (t : Text) : Text := ['\''] ++ Text.Terminal.plain t ++ ['\'']

def message : Rejection → Text
  | unknown shown => "error: unexpected argument ".toList ++ quoted shown ++ " found".toList
  | missingValue p => "error: a value is required for ".toList ++ quoted (Name.parameter p).shown ++
      " but none was supplied".toList
  | invalidNumber p value fault => "error: invalid value ".toList ++ quoted value ++
      " for ".toList ++ quoted (Name.parameter p).shown ++ ": ".toList ++ fault.message
  | repeated n => "error: the argument ".toList ++ quoted n.shown ++
      " cannot be used multiple times".toList
  | unwantedValue n value => "error: unexpected value ".toList ++ quoted value ++
      " for ".toList ++ quoted n.shown ++ " found; no more were expected".toList
  | notText => "error: invalid UTF-8 was detected in one or more arguments".toList

end Rejection

inductive Stop where
  | asked (i : Inquiry)
  | rejected (r : Rejection)
  deriving DecidableEq, Repr

def programName : String := "saladplate"

def programVersion : String := "0.1.0"

def help : Text :=
  ("Template text files with environment variables, file includes, and command output\n\n" ++
    s!"Usage: {programName} [OPTIONS] [FILE]...\n\n" ++
    "Arguments:\n" ++
    "  [FILE]...  Input files to template; use - for standard input\n\n" ++
    "Options:\n" ++
    "      --debug                            Enable debug mode\n" ++
    "  -o, --output <OUTPUT>                  " ++
      "Output file; overrides --directory and --suffix\n" ++
    "  -d, --directory <DIRECTORY>            Output directory\n" ++
    "  -s, --suffix <SUFFIX>                  " ++
      "Output suffix; only applies when using --directory\n" ++
    "  -c, --config <CONFIG>                  Path to configuration file\n" ++
    "      --no-color                         Disable colored output\n" ++
    "      --max-concurrent <MAX_CONCURRENT>  Maximum number of files templated at once\n" ++
    "  -h, --help                             Print help\n" ++
    "  -V, --version                          Print version\n").toList

def Inquiry.answer : Inquiry → Text
  | help => CommandLine.help
  | version => s!"{programName} {programVersion}\n".toList

end Inlay.CommandLine
