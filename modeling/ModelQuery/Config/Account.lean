/-!
# Accounts

The home directory of an account. A list of accounts has a line for each with parts that colons
separate: the third is the account's number and the sixth its home directory. `Account.home?` looks
the directory up, and `Account.number?` finds out which account a process runs under.
-/

namespace ModelQuery.Account

/-- The home directory of the account with this number, given as decimal digits, in a list of
accounts. -/
def home? (number accounts : String) : Option String := do
  let parts ← ((accounts.splitOn "\n").map (·.splitOn ":")).find? (·[2]? == some number)
  (parts[5]?).filter (· != "")

/-- The number of the account that a process runs under, in the description of its state: the first
of those after the word "Uid:" at the beginning of a line. Tabs stand between all of them. -/
def number? (state : String) : Option String := do
  let parts ← ((state.splitOn "\n").map (·.splitOn "\t")).find? (·.head? == some "Uid:")
  parts[1]?

end ModelQuery.Account
