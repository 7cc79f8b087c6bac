import RelStore.Config

/-!
# Command line options
-/

namespace RelStore.Console

/-- What the command line asks for. -/
structure Options where
  dataDir : Option String := none
  config : Option String := none
deriving DecidableEq

/-- Reads the arguments; the last of several options of one kind counts. The error is the
message for the user. -/
def Options.ofArgs (options : Options) : List String → Except String Options
  | [] => .ok options
  | "--data-dir" :: rest =>
    match rest with
    | [] => .error "--data-dir needs a path"
    | path :: rest => Options.ofArgs { options with dataDir := some path } rest
  | "--config" :: rest =>
    match rest with
    | [] => .error "--config needs a path"
    | path :: rest => Options.ofArgs { options with config := some path } rest
  | other :: _ => .error ("unknown argument '" ++ other ++ "'")

end RelStore.Console
