import Switchboard.Cli.Options
import Switchboard.Cli.Output

/-! What the program says about itself. -/
namespace Switchboard.Cli

def versionText : Text := "sipsock 0.4.0\n".toList

def usageText : Text := Text.join ['\n'] (List.map String.toList
  ["Usage: sipsock [-c FILE] [-v] COMMAND",
    "",
    "  client [PROTOCOL] [HOST] [PORT]  connect and run the loops that are on, or send one message",
    "      -t, --timeout SECONDS  -b, --buffersize BYTES  -m, --message TEXT  --trials N",
    "      --tls VERSION  --ca-file FILE  --send-loop  --recv-loop  --sendrecv-loop",
    "  server [PROTOCOL] [PORT]         listen and serve every peer",
    "      --host HOST  --bind-all  -b, --buffersize BYTES  -m, --message TEXT",
    "      --send-loop  --no-recv-loop  --quiet",
    "  scenario FILE                    tell what a scenario says",
    "  realize FILE                     do what a scenario says, and report",
    "      --bind-host HOST  --json",
    "  decode [TEXT]                    tell what a message says; a dash is the standard input",
    "      -f, --file FILE  --json",
    "  help [COMMAND]",
    "",
    "  -c, --config FILE  -v, --verbose  -h, --help  -V, --version",
    ""])

def Output.ofHalt : Halt → Output
  | .help => ⟨0, usageText, []⟩
  | .version => ⟨0, versionText, []⟩
  | .usage => ⟨2, [], usageText⟩

end Switchboard.Cli
