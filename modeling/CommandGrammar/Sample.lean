import CommandGrammar.Text.Lines

set_option autoImplicit false
set_option relaxedAutoImplicit false

namespace CommandGrammar

def sampleLines : List String := [
  "# Sample command grammar.",
  "#",
  "# Each state lists the tokens it accepts. A literal is written in single",
  "# quotes, anything else is a token class (string, word, number, end).",
  "",
  "state INITIAL:",
  "  # Commands are case-insensitive at runtime.",
  "  'exec' -> EXEC",
  "  'exit' -> call cmd_exit()",
  "  'restart' -> call cmd_restart()",
  "  'workspace' -> WORKSPACE",
  "  'mode'",
  "      -> MODE",
  "  end ->",
  "",
  "# exec <command>",
  "state EXEC:",
  "  nosn = '--no-startup-id' ->",
  "  command = string",
  "      -> call cmd_exec($nosn, $command)",
  "",
  "state WORKSPACE:",
  "  direction = 'next', 'prev'",
  "      -> call cmd_workspace($direction)",
  "  'number' -> WORKSPACE_NUMBER",
  "  workspace = string -> call cmd_workspace_name($workspace); INITIAL",
  "",
  "state WORKSPACE_NUMBER:",
  "  workspace = string",
  "      -> call cmd_workspace_number($workspace, \"number\")",
  "",
  "state MODE:",
  "  mode = string -> call cmd_mode($mode); INITIAL"
]

def sample : String := Text.endLines sampleLines

end CommandGrammar
