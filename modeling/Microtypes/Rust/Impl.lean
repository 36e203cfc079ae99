import Microtypes.Rust.Item

/-!
# Implementations

The implementations of Rust traits that generated wrappers are made of. Every path is written from
the root, so that the code means the same wherever it is put.
-/

namespace Microtypes

/-- The trait of normal wrappers. -/
def wrapperTrait : String := "::microtype::Microtype"

/-- The trait of secret wrappers. -/
def secretTrait : String := "::microtype::SecretMicrotype"

/-- The module that keeps secrets. -/
def secrecyModule : String := "::microtype::secrecy"

/-- The type of borrowed strings. -/
def strType : String := "::core::primitive::str"

/-- The type that formatted output goes to. -/
def formatterType : String := "::core::fmt::Formatter<'_>"

/-- An implementation of a trait for a type. -/
def implBlock (path type : String) (body : List String) : List String :=
  braced s!"impl {path} for {type}" body

/-- An implementation without members. -/
def emptyImpl (path type : String) : String :=
  s!"impl {path} for {type} \x7b\x7d"

/-- The basic operations of a normal wrapper. -/
def microtypeImpl (name inner : String) : List String :=
  implBlock wrapperTrait name <| spacedOut
    [[s!"type Inner = {inner};"],
      braced "fn new(inner: Self::Inner) -> Self" ["Self(inner)"],
      braced "fn into_inner(self) -> Self::Inner" ["self.0"],
      braced "fn inner(&self) -> &Self::Inner" ["&self.0"],
      braced "fn inner_mut(&mut self) -> &mut Self::Inner" ["&mut self.0"],
      braced s!"fn convert<T: {wrapperTrait}<Inner = Self::Inner>>(self) -> T"
        ["T::new(self.0)"]]

/-- The construction from the inner type. -/
def fromInnerImpl (name inner : String) : List String :=
  implBlock s!"::core::convert::From<{inner}>" name <|
    braced s!"fn from(inner: {inner}) -> Self" ["Self(inner)"]

/-- Dereference to the inner type. -/
def derefImpl (name inner : String) : List String :=
  implBlock "::core::ops::Deref" name <| spacedOut
    [[s!"type Target = {inner};"], braced "fn deref(&self) -> &Self::Target" ["&self.0"]]

/-- Mutable dereference to the inner type. -/
def derefMutImpl (name : String) : List String :=
  implBlock "::core::ops::DerefMut" name <|
    braced "fn deref_mut(&mut self) -> &mut Self::Target" ["&mut self.0"]

/-- Formatting by one of the formatting traits, as the inner value does. -/
def formatImpl (name inner path : String) : List String :=
  implBlock s!"::core::fmt::{path}" name <|
    braced s!"fn fmt(&self, f: &mut {formatterType}) -> ::core::fmt::Result"
      [s!"<{inner} as ::core::fmt::{path}>::fmt(&self.0, f)"]

/-- Parsing that cannot fail, where `value` is the value made from the string `s`. -/
def infallibleFromStrImpl (name value : String) : List String :=
  implBlock "::core::str::FromStr" name <| spacedOut
    [["type Err = ::core::convert::Infallible;"],
      braced s!"fn from_str(s: &{strType}) -> ::core::result::Result<Self, Self::Err>"
        [s!"::core::result::Result::Ok({value})"]]

/-- The construction from a borrowed string, where `value` is the value made from the string `s`. -/
def fromStrRefImpl (name value : String) : List String :=
  implBlock s!"::core::convert::From<&{strType}>" name <|
    braced s!"fn from(s: &{strType}) -> Self" [value]

/-- Borrowing as a string. -/
def asRefImpl (name : String) : List String :=
  implBlock s!"::core::convert::AsRef<{strType}>" name <|
    braced s!"fn as_ref(&self) -> &{strType}"
      [s!"::core::convert::AsRef::<{strType}>::as_ref(&self.0)"]

/-- Parsing as the inner type does. -/
def innerFromStrImpl (name inner : String) : List String :=
  implBlock "::core::str::FromStr" name <| spacedOut
    [[s!"type Err = <{inner} as ::core::str::FromStr>::Err;"],
      braced s!"fn from_str(s: &{strType}) -> ::core::result::Result<Self, Self::Err>"
        [s!"<{inner} as ::core::str::FromStr>::from_str(s).map(Self)"]]

/-- An arithmetic operation of Rust. -/
structure Arithmetic where
  path : String
  method : String
  operator : String

/-- The arithmetic operations of integers. -/
def arithmetic : List Arithmetic :=
  [⟨"Add", "add", "+"⟩, ⟨"Sub", "sub", "-"⟩, ⟨"Mul", "mul", "*"⟩, ⟨"Div", "div", "/"⟩,
    ⟨"Rem", "rem", "%"⟩]

/-- An arithmetic operation on two wrappers. -/
def operationImpl (name : String) (op : Arithmetic) : List String :=
  implBlock s!"::core::ops::{op.path}" name <| spacedOut
    [["type Output = Self;"],
      braced s!"fn {op.method}(self, rhs: Self) -> Self::Output"
        [s!"Self(self.0 {op.operator} rhs.0)"]]

/-- An arithmetic operation that changes its left operand. -/
def assignmentImpl (name : String) (op : Arithmetic) : List String :=
  implBlock s!"::core::ops::{op.path}Assign" name <|
    braced s!"fn {op.method}_assign(&mut self, rhs: Self)" [s!"self.0 {op.operator}= rhs.0;"]

/-- The formatting traits of integers. -/
def intFormats : List String :=
  ["Display", "Octal", "LowerHex", "UpperHex", "Binary", "LowerExp", "UpperExp"]

/-- An implementation for every database that supports `bound` on the inner type. -/
def columnImpl (name inner bound : String) (body : List String) : List String :=
  [s!"impl<B> {bound} for {name}", "where", "    B: ::diesel::backend::Backend,",
    s!"    {inner}: {bound},", "\x7b"] ++ body.map indentLine ++ ["\x7d"]

/-- Reading from a column: the inner value is read and given to the constructor. -/
def fromColumnImpl (name inner sqlType constructor : String) : List String :=
  let bound := s!"::diesel::deserialize::FromSql<{sqlType}, B>"
  columnImpl name inner bound <|
    ["fn from_sql(", "    bytes: ::diesel::backend::RawValue<'_, B>,"] ++
      braced ") -> ::diesel::deserialize::Result<Self>"
        [s!"<{inner} as {bound}>::from_sql(bytes).map({constructor})"]

/-- Writing to a column: the inner value is borrowed and written. -/
def toColumnImpl (name inner sqlType borrowed : String) : List String :=
  let bound := s!"::diesel::serialize::ToSql<{sqlType}, B>"
  columnImpl name inner bound <|
    ["fn to_sql<'b>(", "    &'b self,",
        "    out: &mut ::diesel::serialize::Output<'b, '_, B>,"] ++
      braced ") -> ::diesel::serialize::Result"
        [s!"<{inner} as {bound}>::to_sql({borrowed}, out)"]

/-- The marks of a secret, for its hidden wrapper. -/
def secretMarkerImpls (wrapper : String) : List String :=
  spacedOut
    [[emptyImpl s!"{secrecyModule}::CloneableSecret" wrapper],
      [emptyImpl s!"{secrecyModule}::DebugSecret" wrapper],
      implBlock s!"{secrecyModule}::Zeroize" wrapper <|
        braced "fn zeroize(&mut self)" [s!"{secrecyModule}::Zeroize::zeroize(&mut self.0);"]]

/-- The exposure of a secret, which borrows its value. -/
def exposeSecretImpl (name inner : String) : List String :=
  implBlock s!"{secrecyModule}::ExposeSecret<{inner}>" name <|
    braced s!"fn expose_secret(&self) -> &{inner}"
      [s!"&{secrecyModule}::ExposeSecret::expose_secret(&self.0).0"]

/-- The constructor of a secret. -/
def secretConstructorImpl (name wrapper inner : String) : List String :=
  implBlock secretTrait name <| spacedOut
    [[s!"type Inner = {inner};"],
      braced "fn new(inner: Self::Inner) -> Self"
        [s!"Self({secrecyModule}::Secret::new({wrapper}(inner)))"]]

/-- The exposed value of `target`. -/
def exposed (target : String) : String :=
  s!"{secrecyModule}::ExposeSecret::expose_secret({target})"

/-- Debug output of a secret, in tests only. -/
def secretDebugImpl (name inner : String) : List String :=
  "#[cfg(test)]" :: implBlock "::core::fmt::Debug" name
    (braced s!"fn fmt(&self, f: &mut {formatterType}) -> ::core::fmt::Result"
      [s!"<{inner} as ::core::fmt::Debug>::fmt(", "    " ++ exposed "self" ++ ",", "    f,", ")"])

/-- Comparison of secrets, in tests only. -/
def secretEqImpl (name inner : String) : List String :=
  "#[cfg(test)]" :: implBlock "::core::cmp::PartialEq" name
    (braced "fn eq(&self, other: &Self) -> bool"
      [s!"<{inner} as ::core::cmp::PartialEq>::eq(", "    " ++ exposed "self" ++ ",",
        "    " ++ exposed "other" ++ ",", ")"])

end Microtypes
