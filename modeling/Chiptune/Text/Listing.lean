/-!
# Listings

A thing in a listing is its name, with its operands in parentheses if it has
any.
-/
namespace Chiptune.Text

def listed (name : String) (operands : List String) : String :=
  name ++ "(" ++ ", ".intercalate operands ++ ")"

end Chiptune.Text
