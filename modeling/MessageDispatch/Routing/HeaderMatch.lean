import MessageDispatch.Headers

/-! Routing by headers. A binding lists headers it asks for; its argument `x-match` says whether
any or all of them have to be present, and with the ending `-with-x` also those whose names
start with `x-` count. A binding that asks for nothing takes every message. -/
namespace MessageDispatch.HeaderMatch

def modeName : String := "x-match"

/-- The value of `x-match`, `all` when it is missing. -/
def mode (arguments : Headers) : String :=
  (arguments.get? modeName).getD "all"

/-- Is an argument of this name one that a message has to carry? -/
def considered (mode name : String) : Bool :=
  name != modeName &&
    ("-with-x".toList.isSuffixOf mode.toList || !"x-".toList.isPrefixOf name.toList)

/-- The arguments that a message is held against. -/
def required (arguments : Headers) : List (String × String) :=
  arguments.entries.filter (fun e => considered (mode arguments) e.1)

def present (headers : Headers) (argument : String × String) : Bool :=
  headers.get? argument.1 == some argument.2

/-- Does a message with these headers fit a binding with these arguments? -/
def accepts (arguments headers : Headers) : Bool :=
  let wanted := required arguments
  wanted.isEmpty ||
    if "any".toList.isPrefixOf (mode arguments).toList then wanted.any (present headers)
    else wanted.all (present headers)

end MessageDispatch.HeaderMatch
