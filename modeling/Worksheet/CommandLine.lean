import Worksheet.Report

/-!
The command line: what its arguments ask for, and what it answers.

Arguments are taken from left to right, and the first one that is refused, or that
asks for the version or for help, settles the answer.  An argument that begins
with a minus and goes on is an option, up to the argument `--`.
-/

namespace Worksheet

namespace CommandLine

/-- How much help is asked for: a summary by `-h`, and all of it by `--help`. -/
inductive Help where
  | summary
  | full
deriving DecidableEq, Repr

inductive Request where
  | version
  | help (extent : Help)
  | enter (kind : Kind) (texts : List String)
deriving DecidableEq, Repr

inductive UsageError where
  | unknownOption (argument : String)
  | missingKind
  | repeatedKind
  | unknownKind (name : String)
  | noExpression
deriving DecidableEq, Repr

def UsageError.message : UsageError → String
  | unknownOption argument => s!"unexpected argument '{argument}' found"
  | missingKind => "a value is required for '--type <KIND>' but none was supplied"
  | repeatedKind => "the argument '--type <KIND>' cannot be used multiple times"
  | unknownKind name => s!"invalid value '{name}' for '--type <KIND>'"
  | noExpression => "the following required arguments were not provided: <EXPRESSION>..."

structure Choices where
  kind : Option Kind
  texts : List String

namespace Choices

def none : Choices := ⟨.none, []⟩

def withKind (choices : Choices) (name : String) : Except UsageError Choices :=
  if choices.kind.isSome then .error .repeatedKind
  else
    match Kind.ofName? name with
    | .none => .error (.unknownKind name)
    | some kind => .ok { choices with kind := some kind }

def withTexts (choices : Choices) (texts : List String) : Choices :=
  { choices with texts := choices.texts ++ texts }

def request (choices : Choices) : Except UsageError Request :=
  if choices.texts.isEmpty then .error .noExpression
  else .ok (.enter (choices.kind.getD Kind.standard) choices.texts)

end Choices

/-- A minus alone is an expression. -/
def isOption (argument : String) : Bool :=
  match argument.toList with
  | '-' :: _ :: _ => true
  | _ => false

/-- The request that one-letter options make; `none` if they only ask for more
messages. -/
def letters? (argument : String) : List Char → Except UsageError (Option Request)
  | [] => .ok none
  | 'v' :: letters => letters? argument letters
  | 'V' :: _ => .ok (some .version)
  | 'h' :: _ => .ok (some (.help .summary))
  | _ => .error (.unknownOption argument)

def kindName? (argument : String) : Option String :=
  let start := "--type=".toList
  if start.isPrefixOf argument.toList then
    some (String.ofList (argument.toList.drop start.length))
  else none

def parse (choices : Choices) : List String → Except UsageError Request
  | [] => choices.request
  | argument :: arguments =>
      if !isOption argument then parse (choices.withTexts [argument]) arguments
      else if argument = "--" then (choices.withTexts arguments).request
      else if argument = "--version" then .ok .version
      else if argument = "--help" then .ok (.help .full)
      else if argument = "--verbose" then parse choices arguments
      else if argument = "--type" then
        match arguments with
        | [] => .error .missingKind
        | name :: arguments =>
            if isOption name then .error .missingKind
            else (choices.withKind name).bind (parse · arguments)
      else
        match kindName? argument, argument.toList with
        | some name, _ => (choices.withKind name).bind (parse · arguments)
        | none, '-' :: '-' :: _ => .error (.unknownOption argument)
        | none, _ :: letters =>
            match letters? argument letters with
            | .error error => .error error
            | .ok (some request) => .ok request
            | .ok none => parse choices arguments
        | none, [] => .error (.unknownOption argument)

def versionText : String := "exprs 0.1.0\n"

/-! ### Help -/

namespace Help

structure Item where
  form : String
  about : String
  /-- The value that it has if it is not given. -/
  default? : Option String

def arguments : List Item :=
  [⟨"<EXPRESSION>...", "Expressions to parse; separate arguments are separate expressions", none⟩]

def options (extent : Help) : List Item :=
  let other :=
    match extent with
    | summary => "see more with '--help'"
    | full => "see a summary with '-h'"
  [⟨"-v, --verbose...", "Increase verbosity level (-v, -vv, -vvv)", none⟩,
    ⟨"    --type <KIND>", "Numeric kind of every number (int, float or double)",
      some Kind.standard.name⟩,
    ⟨"-h, --help", "Print help (" ++ other ++ ")", none⟩,
    ⟨"-V, --version", "Print version", none⟩]

/-- A summary has a line for each item, with the descriptions below each other.  Otherwise a
description has lines of its own. -/
def Item.text (extent : Help) (width : Nat) (item : Item) : String :=
  match extent with
  | summary =>
      "  " ++ String.ofList (item.form.toList.rightpad width ' ') ++ "  " ++ item.about ++
        item.default?.elim "" (fun value => " [default: " ++ value ++ "]") ++ "\n"
  | full =>
      let margin := "          "
      "  " ++ item.form ++ "\n" ++ margin ++ item.about ++
        item.default?.elim ""
          (fun value => "\n" ++ margin ++ "\n" ++ margin ++ "[default: " ++ value ++ "]") ++ "\n"

def listing (extent : Help) (heading : String) (items : List Item) : String :=
  let width := (items.map (·.form.length)).foldl max 0
  let between :=
    match extent with
    | summary => ""
    | full => "\n"
  heading ++ ":\n" ++ between.intercalate (items.map (·.text extent width))

def about : Help → String
  | summary => "Parse, evaluate and inspect arithmetic expressions"
  | full =>
      "exprs parses one or more expressions separated by `;`, then prints\n" ++
      "each expression with its value and its tree, followed by every variable.\n\n" ++
      "EXAMPLES:\n\n" ++
      "  exprs 'a = 2; a * (3 + 4)'\n\n" ++
      "  exprs --type double 'r = 1.5' '3.14159 * r ^ 2'"

def text (extent : Help) : String :=
  extent.about ++ "\n\nUsage: exprs [OPTIONS] <EXPRESSION>...\n\n" ++
    extent.listing "Arguments" arguments ++ "\n" ++ extent.listing "Options" extent.options

end Help

/-! ### Answers -/

/-- What the command line does: it finishes, or it fails after some output, or it
refuses its arguments. -/
inductive Answer where
  | finished (output : String)
  | failed (output : String) (error : SheetError)
  | refused (error : UsageError)

namespace Answer

def code : Answer → UInt32
  | finished _ => 0
  | failed _ _ => 1
  | refused _ => 2

def output : Answer → String
  | finished output | failed output _ => output
  | refused _ => ""

def errorText? : Answer → Option String
  | finished _ => none
  | failed _ error => some error.message
  | refused error => some error.message

end Answer

/-- Enters the texts into a new sheet, as if separators stood between them, and
reports on the sheet whether or not all of them could be entered. -/
def enter (kind : Kind) (texts : List String) : Answer :=
  let sheet := Sheet.new { Dialect.standard with kind }
  let (outcome, sheet) := sheet.enter (sheet.dialect.separator.toString.intercalate texts)
  match outcome with
  | .ok _ => .finished sheet.report.1
  | .error error => .failed sheet.report.1 error

def run (arguments : List String) : Answer :=
  match parse .none arguments with
  | .error error => .refused error
  | .ok .version => .finished versionText
  | .ok (.help extent) => .finished extent.text
  | .ok (.enter kind texts) => enter kind texts

end CommandLine

end Worksheet
