import Chiptune.Percent
import Chiptune.Storage.Path
import Chiptune.Text.Decimal

/-!
# The command line

The arguments are the path of an album, a track if another one than the first
is wanted, and options. An option stands at most once. The value of an option
follows an equals sign or is the next argument, which must not look like an
option; after two dashes everything is a path or a track.
-/
namespace Chiptune.Session

open Text (bitBound)

structure Options where
  album : Path
  /-- The track to play, counted from zero. -/
  track : Option Nat := none
  volume : Option Percent := none
  /-- The playback speed in percent. -/
  speed : UInt32 := 100
  sampleRate : UInt32 := 48000
  /-- The wave file to record to. -/
  wave : Option Path := none
  seconds : Option Float32 := none
  quiet : Bool := false
  debug : Bool := false
  noConfig : Bool := false
  deriving DecidableEq

/-- The options that take no value. -/
inductive Flag where
  | quiet
  | debug
  | noConfig
  deriving DecidableEq, Repr

/-- The options that take a value. -/
inductive Parameter where
  | volume
  | speed
  | sampleRate
  | wave
  | seconds
  deriving DecidableEq, Repr

/-- The arguments in order, with the options told apart. -/
inductive Argument where
  | plain (text : String)
  | flag (name : Flag)
  | parameter (name : Parameter) (text : String)
  deriving DecidableEq, Repr

def Flag.ofName? : String → Option Flag
  | "quiet" => some .quiet
  | "debug" => some .debug
  | "no-config" => some .noConfig
  | _ => none

def Parameter.ofName? : String → Option Parameter
  | "volume" => some .volume
  | "speed" => some .speed
  | "sample-rate" => some .sampleRate
  | "wav" => some .wave
  | "seconds" => some .seconds
  | _ => none

namespace Argument

/-- The part before the first equals sign, and the part after it if there is one. -/
def splitValue (text : List Char) : String × Option String :=
  let name := String.ofList (text.takeWhile (· != '='))
  match text.dropWhile (· != '=') with
  | [] => (name, none)
  | _ :: value => (name, some (String.ofList value))

/-- A single dash does not look like an option. -/
def looksLikeOption (text : String) : Bool :=
  match text.toList with
  | '-' :: _ :: _ => true
  | _ => false

/-- Tells the options among arguments apart, or fails if there is an unknown one, one without the
value that it takes or one with a value that it does not take. -/
def ofTexts? : List String → Option (List Argument)
  | [] => some []
  | text :: rest =>
    match text.toList with
    | ['-', '-'] => some (rest.map plain)
    | '-' :: '-' :: name =>
      match splitValue name with
      | (name, none) =>
        match Flag.ofName? name, Parameter.ofName? name, rest with
        | some option, _, rest => (ofTexts? rest).map (flag option :: ·)
        | none, some option, value :: rest =>
          if looksLikeOption value then none else (ofTexts? rest).map (parameter option value :: ·)
        | none, _, _ => none
      | (name, some value) =>
        (Parameter.ofName? name).bind fun option =>
          (ofTexts? rest).map (parameter option value :: ·)
    | '-' :: _ :: _ => none
    | _ => (ofTexts? rest).map (plain text :: ·)

def plain? : Argument → Option String
  | plain text => some text
  | _ => none

end Argument

/-- A whole number with an optional sign, within 64 bits. -/
def signed? : List Char → Option Int
  | '-' :: digits =>
    ((Text.unsigned? digits).map fun n => -(n : Int)).filter (-(bitBound 63 : Int) ≤ ·)
  | digits => ((Text.numeral? digits).map Int.ofNat).filter (· < bitBound 63)

/-- A natural number below a bound; zero may have a minus sign. -/
def natural? (bound : Nat) (text : String) : Option Nat :=
  (signed? text.toList).bind fun n => if 0 ≤ n ∧ n < bound then some n.toNat else none

def word32? (text : String) : Option UInt32 := (natural? (bitBound 32) text).map UInt32.ofNat

def percent? (text : String) : Option Percent := (natural? 101 text).map .cut

/-- A path is not empty. -/
def path? (text : String) : Option Path := if text.isEmpty then none else some text

def track? (text : String) : Option Nat := Text.boundedNumeral? (bitBound 64) text.toList

namespace Options

def addParameter? (options : Options) (text : String) : Parameter → Option Options
  | .volume => (percent? text).map fun volume => { options with volume := some volume }
  | .speed => (word32? text).map fun speed => { options with speed }
  | .sampleRate => (word32? text).map fun sampleRate => { options with sampleRate }
  | .wave => (path? text).map fun wave => { options with wave := some wave }
  | .seconds =>
    (Text.float? text.toList).map fun seconds => { options with seconds := some seconds }

def addFlag (options : Options) : Flag → Options
  | .quiet => { options with quiet := true }
  | .debug => { options with debug := true }
  | .noConfig => { options with noConfig := true }

def add? (options : Options) : Argument → Option Options
  | .plain _ => some options
  | .flag name => some (options.addFlag name)
  | .parameter name text => options.addParameter? text name

/-- The option that an argument is, without regard to its value. -/
def optionName? : Argument → Option (Flag ⊕ Parameter)
  | .plain _ => none
  | .flag name => some (.inl name)
  | .parameter name _ => some (.inr name)

def hasRepeats (arguments : List Argument) : Bool :=
  let names := arguments.filterMap optionName?
  names.eraseDups.length != names.length

/-- The options without those that have names. -/
def ofPlain? : List String → Option Options
  | [album] => (path? album).map fun album => { album }
  | [album, track] => do
    let album ← path? album
    let track ← track? track
    return { album, track := some track }
  | _ => none

def ofArguments? (arguments : List Argument) : Option Options := do
  if hasRepeats arguments then none
  let options ← ofPlain? (arguments.filterMap Argument.plain?)
  arguments.foldlM add? options

/-- The options that the arguments of a program ask for, or `none` if they are misused. -/
def parse? (texts : List String) : Option Options :=
  (Argument.ofTexts? texts).bind ofArguments?

end Options
end Chiptune.Session
