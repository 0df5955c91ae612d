namespace Highlighter

namespace Vocabulary

def keywords : List String :=
  ["fn", "let", "match", "if", "else", "while", "for", "return", "type", "mod", "const"]

def constants : List String :=
  ["true", "false", "None"]

def variants : List String :=
  ["Left", "Right", "Some"]

def primitiveTypes : List String :=
  ["u1", "u2", "u4", "u8", "u16", "u32", "u64", "u128", "u256", "i8", "i16", "i32", "i64", "bool"]

def builtinTypes : List String :=
  ["Either", "Option", "List",
    "Ctx8", "Pubkey", "Message64", "Message", "Signature", "Scalar", "Fe", "Gej", "Ge", "Point",
    "Height", "Time", "Distance", "Duration", "Lock", "Outpoint",
    "Confidential1", "ExplicitAsset", "Asset1", "ExplicitAmount", "Amount1", "ExplicitNonce",
    "Nonce", "TokenAmount1"]

def builtinFunctions : List String :=
  ["unwrap", "unwrap_left", "unwrap_right", "for_while", "is_none", "array_fold", "into", "fold",
    "dbg"]

end Vocabulary

inductive Naming
  | snake
  | upperSnake
  deriving DecidableEq, Repr

def Naming.name : Naming → String
  | snake => "snake"
  | upperSnake => "upper-snake"

structure Namespace where
  word : String
  naming : Naming
  deriving DecidableEq, Repr

def Namespace.all : List Namespace :=
  [⟨"jet", .snake⟩, ⟨"witness", .upperSnake⟩, ⟨"param", .snake⟩]

structure Snippet where
  label : String
  template : String
  description : String
  deriving DecidableEq, Repr

def Snippet.all : List Snippet :=
  [⟨"fn main", "fn main() \x7b\n\t$\x7b1\x7d\n\x7d", "Main function template"⟩,
   ⟨"assert", "assert!($\x7b1:condition\x7d)", "Assertion statement"⟩,
   ⟨"witness", "let $\x7b1:name\x7d: $\x7b2:type\x7d = witness::$\x7b3:NAME\x7d;",
    "Witness declaration"⟩]

end Highlighter
