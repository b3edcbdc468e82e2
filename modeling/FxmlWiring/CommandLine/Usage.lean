import FxmlWiring.CommandLine.Arguments

/-! # Usage and help

The texts that explain the command line. -/

namespace FxmlWiring.CommandLine

/-- The name of the program. -/
def programName : String :=
  "check_fxml_controller.py"

/-- The usage, shown before help and usage errors. -/
def usage : String :=
  "usage: " ++ programName ++ " [-h] [--annotation ANNOTATION]\n" ++
  "                                [--id-attribute ID_ATTRIBUTE]\n" ++
  "                                [--action-attribute ACTION_ATTRIBUTE]\n" ++
  "                                [--verbose | --quiet]\n" ++
  "                                fxml_file controller_file\n"

/-- The help text. -/
def help : String :=
  usage ++
  "\n" ++
  "Check that a JavaFX controller declares the fields and handlers referenced by\n" ++
  "an FXML file.\n" ++
  "\n" ++
  "positional arguments:\n" ++
  "  fxml_file             Path to the FXML file.\n" ++
  "  controller_file       Path to the Java controller file.\n" ++
  "\n" ++
  "options:\n" ++
  "  -h, --help            show this help message and exit\n" ++
  "  --annotation ANNOTATION\n" ++
  "                        Annotation that binds a field or handler (default:\n" ++
  "                        @FXML)\n" ++
  "  --id-attribute ID_ATTRIBUTE\n" ++
  "                        Attribute naming a bound field (default: fx:id)\n" ++
  "  --action-attribute ACTION_ATTRIBUTE\n" ++
  "                        Attribute naming an action handler (default: onAction)\n" ++
  "  --verbose             Print every requirement with the rule that accepted it\n" ++
  "  --quiet               Print nothing; report through the exit status only\n"

/-- What is shown for a usage error. -/
def UsageError.report (e : UsageError) : String :=
  usage ++ programName ++ ": error: " ++ e.message ++ "\n"

end FxmlWiring.CommandLine
