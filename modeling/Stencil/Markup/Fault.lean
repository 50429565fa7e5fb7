namespace Stencil.Markup

/-- The kinds of markup that need a closing mark. -/
inductive Construct where
  | instruction | comment | doctype | verbatim | tag
deriving DecidableEq, Repr

def Construct.unclosed : Construct → String
  | .instruction =>
    "processing instruction or xml declaration not closed: `?>` not found before end of input"
  | .comment => "comment not closed: `-->` not found before end of input"
  | .doctype => "DOCTYPE not closed: `>` not found before end of input"
  | .verbatim => "CDATA not closed: `]]>` not found before end of input"
  | .tag => "tag not closed: `>` not found before end of input"

/-- What is wrong with a reference. Ranges count bytes of the text that it stands in. -/
inductive ReferenceFault where
  | unterminated (start stop : Nat)
  | unknownEntity (start stop : Nat) (name : String)
  | signedNumber
  | noDigits
  | badDigit
  | tooLarge
  | nul
  | noCharacter (code : Nat)
deriving DecidableEq, Repr

def ReferenceFault.message : ReferenceFault → String
  | .unterminated start stop =>
    s!"Error while escaping character at range {start}..{stop}: Cannot find ';' after '&'"
  | .unknownEntity start stop name => s!"at {start}..{stop}: unrecognized entity `{name}`"
  | .signedNumber => "invalid character reference: unexpected number sign"
  | .noDigits => "invalid character reference: cannot parse integer from empty string"
  | .badDigit => "invalid character reference: invalid digit found in string"
  | .tooLarge => "invalid character reference: number too large to fit in target type"
  | .nul => "invalid character reference: 0x0 character is not permitted in XML"
  | .noCharacter code => s!"invalid character reference: `{code}` is not a valid codepoint"

/-- What is wrong with the attributes of a tag, at a byte position inside the tag. -/
inductive AttributeFault where
  | noEquals (position : Nat)
  | noValue (position : Nat)
  | noQuote (position : Nat)
  | unclosed (position : Nat) (quote : Char)
  | duplicate (position earlier : Nat)
deriving DecidableEq, Repr

def AttributeFault.message : AttributeFault → String
  | .noEquals position =>
    s!"position {position}: attribute key must be directly followed by `=` or space"
  | .noValue position => s!"position {position}: `=` must be followed by an attribute value"
  | .noQuote position => s!"position {position}: attribute value must be enclosed in `\"` or `'`"
  | .unclosed position quote =>
    s!"position {position}: missing closing quote `{quote}` in attribute value"
  | .duplicate position earlier =>
    s!"position {position}: duplicated attribute, previous declaration at position {earlier}"

inductive Fault where
  /-- `<!` with something unknown after it. -/
  | unknownMark
  | unclosed (construct : Construct)
  | namelessDoctype
  /-- An end tag while no element is open. -/
  | strayEnd (found : String)
  | wrongEnd (expected found : String)
  | badAttribute (fault : AttributeFault)
  | badReference (fault : ReferenceFault)
  /-- The byte offset where a tag ends falls inside a character. -/
  | splitCharacter (offset : Nat)
deriving DecidableEq, Repr

def Fault.message : Fault → String
  | .unknownMark => "syntax error: unknown or missed symbol in markup"
  | .unclosed construct => s!"syntax error: {construct.unclosed}"
  | .namelessDoctype =>
    "ill-formed document: `<!DOCTYPE>` declaration does not contain a name of a document type"
  | .strayEnd found => s!"ill-formed document: close tag `</{found}>` does not match any open tag"
  | .wrongEnd expected found =>
    s!"ill-formed document: expected `</{expected}>`, but `</{found}>` was found"
  | .badAttribute fault => s!"error while parsing attribute: {fault.message}"
  | .badReference fault => fault.message
  | .splitCharacter offset => s!"offset {offset} is not on a character boundary"

inductive NestingFault where
  | severalRoots (name : String) (line : Nat)
  | strayEnd
  | unclosed (name : String)
  | noRoot
deriving DecidableEq, Repr

def NestingFault.message : NestingFault → String
  | .severalRoots name line =>
    s!"document has more than one root element ('{name}' at line {line})"
  | .strayEnd => "unexpected closing tag"
  | .unclosed name => s!"element '{name}' is never closed"
  | .noRoot => "document has no root element"

end Stencil.Markup
