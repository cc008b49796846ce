import TypedJson.CommandLine.Arguments

/-!
# Help

The texts that describe the command line.
-/

namespace TypedJson.CommandLine

/-- The line for the option that every command has. -/
def globalHelp : List String :=
  ["      --cache-dir <CACHE_DIR>  persist compiled codecs under this directory",
    "  -h, --help                   Print help"]

/-- The lines for the options of a schema. -/
def schemaHelp : List String :=
  ["      --registry <REGISTRY>    JSON file with `classes` and `enums` definitions",
    "      --type <TY>              type to compile, e.g. `list<Dummy>`",
    "      --config <CONFIG>        JSON file with serializer options (camelCase keys)"]

/-- The line for inputs. -/
def inputHelp : String :=
  "  -i, --input <INPUT>...       One or more inputs. May be literal paths or quoted glob patterns"

/-- The lines about a command. -/
def Topic.lines : Topic → List String
  | program =>
    ["compile type-directed JSON codecs and inspect how inputs are split and decoded",
      "",
      "Usage: typed-json [OPTIONS] <COMMAND>",
      "",
      "Commands:",
      "  split   print the member boundaries of a top-level list or dict",
      "  decode  decode inputs against a type and print them re-encoded",
      "  codec   print the compiled encoder or decode plan of a type",
      "  help    Print this message or the help of the given subcommand(s)",
      "",
      "Options:"] ++ globalHelp
  | split =>
    ["print the member boundaries of a top-level list or dict",
      "",
      "Usage: typed-json split [OPTIONS] --input <INPUT>...",
      "",
      "Options:",
      inputHelp,
      "      --container <CONTAINER>  container expected at the top level [default: list] " ++
        "[possible values: list, dict]"] ++ globalHelp
  | decode =>
    ["decode inputs against a type and print them re-encoded",
      "",
      "Usage: typed-json decode [OPTIONS] --input <INPUT>... --registry <REGISTRY> --type <TY>",
      "",
      "Options:",
      inputHelp] ++ schemaHelp ++
      ["      --lazy                   decode lazily and resolve while re-encoding",
        "      --collect-errors         keep going past element errors and report them"] ++
      globalHelp
  | codec =>
    ["print the compiled encoder or decode plan of a type",
      "",
      "Usage: typed-json codec [OPTIONS] --registry <REGISTRY> --type <TY>",
      "",
      "Options:"] ++ schemaHelp ++
      ["      --direction <DIRECTION>  [default: encode] [possible values: encode, decode]",
        "  -o, --out <OUT>              output .json file (stdout if omitted)"] ++ globalHelp
  | help =>
    ["Print this message or the help of the given subcommand(s)",
      "",
      "Usage: typed-json help [COMMAND]...",
      "",
      "Arguments:",
      "  [COMMAND]...  Print help for the subcommand(s)"]

/-- The text about a topic. -/
def Topic.text (topic : Topic) : String := "\n".intercalate topic.lines ++ "\n"

end TypedJson.CommandLine
