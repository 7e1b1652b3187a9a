/-!
# The quick reference

A page that shows the commands and the notation of filter expressions by example.
-/

namespace ModelQuery.QuickReference

/-- The line below a heading. -/
def rule : String := String.ofList (List.replicate 80 '─')

/-- The lines of the page, after an empty one. -/
def lines : List String :=
  ["",
    "SFQ QUICK REFERENCE",
    "===================",
    "",
    "COMMANDS                                      EXAMPLES",
    rule,
    "parse (p)       Print filter tree as JSON     sfq p \"model_name ~ FW\"",
    "search (s)      Print model search request    sfq s -a serial_number \"condition = 0\"",
    "attrs (a)       List known attributes         sfq a model",
    "resolve (r)     Name <-> ID lookup            sfq r model_name 0x1000a",
    "operators (ops) List operators                sfq ops",
    "init            Write default config          sfq init --force",
    "",
    "CONDITIONS",
    rule,
    "attr op value           model_name ~ 'FW'",
    "attr: name or ID        device_type = 23000e      0x23000e = 23000e",
    "value: quoted or bare   sys_desc = \"Cisco IOS\"    network_address ^= 10.1.",
    "",
    "OPERATORS",
    rule,
    "=   equals (ignore case)      !=  does not equal",
    "~   contains                  !~  does not contain",
    "=~  regex (PCRE)              ^=  starts with        =$  ends with",
    "<   <=   >   >=               numeric comparison",
    "",
    "GROUPS",
    rule,
    "and(c1, c2, ...)    or(c1, c2, ...)    not(c1, ...)",
    "and(model_name ~ FW, or(condition = 0, condition = 1))"]

/-- The page. -/
def text : String :=
  String.join (lines.map (· ++ "\n"))

end ModelQuery.QuickReference
