import DerivationReplay.Event.Text
import DerivationReplay.Files
import DerivationReplay.Options.Record
import DerivationReplay.Reconstruction
import DerivationReplay.Toml.Settings

/-! Transcripts and options in files, and the derivation that a transcript file tells of. -/
namespace DerivationReplay

inductive TranscriptError
  | unreadable (path : String) (failure : ReadFailure)
  | containsNul (path : String)
  | notUtf8 (path : String)
deriving DecidableEq, Repr

def TranscriptError.message : TranscriptError → String
  | unreadable path failure => "I/O error: " ++ path ++ ": " ++ failure.message
  | containsNul path => "corrupted transcript: " ++ path ++ ": contains NUL byte(s)"
  | notUtf8 path => "corrupted transcript: " ++ path ++ ": contains non-UTF-8 byte sequence(s)"

def readTranscript (read : FileReader) (path : String) : Except TranscriptError String :=
  match read path with
  | .error failure => .error (.unreadable path failure)
  | .ok bytes =>
    if bytes.data.contains 0 then .error (.containsNul path)
    else match String.fromUTF8? bytes with
      | some text => .ok text
      | none => .error (.notUtf8 path)

inductive OptionsError
  | unreadable (path : String) (failure : ReadFailure)
  | notUtf8 (path : String)
  | invalid (origin : String)
deriving DecidableEq, Repr

def OptionsError.message : OptionsError → String
  | unreadable path failure => "failed to read config: " ++ path ++ ": " ++ failure.message
  | notUtf8 path => "failed to read config: " ++ path ++ ": stream did not contain valid UTF-8"
  | invalid origin => "invalid toml at " ++ origin

def Options.ofToml (document origin : String) : Except OptionsError Options :=
  match Toml.settings? document >>= Options.ofJson? with
  | some options => .ok options
  | none => .error (.invalid origin)

def readOptions (read : FileReader) (path : String) : Except OptionsError Options :=
  match read path with
  | .error failure => .error (.unreadable path failure)
  | .ok bytes =>
    match String.fromUTF8? bytes with
    | some document => Options.ofToml document path
    | none => .error (.notUtf8 path)

inductive LoadError
  | transcript (error : TranscriptError)
  | rejected (rejection : Reconstruction.Rejection)
deriving DecidableEq, Repr

def LoadError.message : LoadError → String
  | transcript error => error.message
  | rejected rejection => rejection.message

def Derivation.ofTranscript (options : Options) (transcript : String) :
    Except Reconstruction.Rejection Derivation :=
  ofEvents options (Event.ofText options.refutationMarker transcript)

def loadDerivation (read : FileReader) (path : String) (options : Options) :
    Except LoadError Derivation := do
  let transcript ← (readTranscript read path).mapError .transcript
  (Derivation.ofTranscript options transcript).mapError .rejected

end DerivationReplay
