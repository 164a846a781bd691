/-! What can be wrong with a YAML text, and the wording of each fault. -/

namespace RuleTidy.Yaml

inductive SyntaxFault where
  | entryInFlow
  | tabAfterEntry
  | tabAfterColon
  | tabInBlockScalar
  | entryNotAllowed
  | commentNotSeparated
  | documentStartExpected
  | versionRepeated
  | colonMisplaced
  | contentAfterDocumentEnd
  | tagPrefixCharacter
  | indentation
  | quotedIndentation
  | quotedTab
  | contentAfterQuoted
  | keyNotAllowed
  | valueNotAllowed
  | colonExpected
  | simpleKeyExpected
  | tabInIndentation
  | handleUndeclared
  | unexpectedCharacter (c : Char)
  | entryExpected
  | keyExpected
  | flowMappingEndExpected
  | flowSequenceEndExpected
  | nodeExpected
  | hexadecimalExpected
  | codePointInvalid
  | escapeUnknown
  | anchorUnknown
  | versionSeparatorExpected
  | versionNumberExpected
  | versionNumberTooLong
  | directiveNameExpected
  | directiveNameCharacter
  | contentAfterDirective
  | contentAfterBlockHeader
  | zeroIndentation
  | tabInPlain
  | documentIndicatorInQuoted
  | quotedUnclosed
  | tagBangExpected
  | tagDirectiveBangExpected
  | verbatimTagUnclosed
  | contentAfterTag
  | contentAfterTagDirective
  | tagUriExpected
  | uriEscape
  | uriLeadingByte
  | uriTrailingByte
  | uriCodePoint
  | anchorNameExpected
  | blockScalarIndentation
  | flowTooDeep
  | flowColonAdjacent
  | keyBlankExpected
  | keyTab
  | plainDash
  | flowIndentation
  | plainEmpty
  | documentEndExpected
  deriving DecidableEq

def SyntaxFault.message : SyntaxFault → String
  | .entryInFlow => "\"-\" is only valid inside a block"
  | .tabAfterEntry => "'-' must be followed by a valid YAML whitespace"
  | .tabAfterColon => "':' must be followed by a valid YAML whitespace"
  | .tabInBlockScalar => "a block scalar content cannot start with a tab"
  | .entryNotAllowed => "block sequence entries are not allowed in this context"
  | .commentNotSeparated => "comments must be separated from other tokens by whitespace"
  | .documentStartExpected => "did not find expected <document start>"
  | .versionRepeated => "duplicate version directive"
  | .colonMisplaced => "illegal placement of ':' indicator"
  | .contentAfterDocumentEnd => "invalid content after document end marker"
  | .tagPrefixCharacter => "invalid global tag character"
  | .indentation => "invalid indentation"
  | .quotedIndentation => "invalid indentation in quoted scalar"
  | .quotedTab => "tab cannot be used as indentation"
  | .contentAfterQuoted => "invalid trailing content after double-quoted scalar"
  | .keyNotAllowed => "mapping keys are not allowed in this context"
  | .valueNotAllowed => "mapping values are not allowed in this context"
  | .colonExpected => "simple key expect ':'"
  | .simpleKeyExpected => "simple key expected"
  | .tabInIndentation => "tabs disallowed within this context (block indentation)"
  | .handleUndeclared => "the handle wasn't declared"
  | .unexpectedCharacter c => "unexpected character: `" ++ c.toString ++ "'"
  | .entryExpected => "while parsing a block collection, did not find expected '-' indicator"
  | .keyExpected => "while parsing a block mapping, did not find expected key"
  | .flowMappingEndExpected => "while parsing a flow mapping, did not find expected ',' or '\x7d'"
  | .flowSequenceEndExpected => "while parsing a flow sequence, expected ',' or ']'"
  | .nodeExpected => "while parsing a node, did not find expected node content"
  | .hexadecimalExpected =>
    "while parsing a quoted scalar, did not find expected hexadecimal number"
  | .codePointInvalid =>
    "while parsing a quoted scalar, found invalid Unicode character escape code"
  | .escapeUnknown => "while parsing a quoted scalar, found unknown escape character"
  | .anchorUnknown => "while parsing node, found unknown anchor"
  | .versionSeparatorExpected =>
    "while scanning a YAML directive, did not find expected digit or '.' character"
  | .versionNumberExpected =>
    "while scanning a YAML directive, did not find expected version number"
  | .versionNumberTooLong =>
    "while scanning a YAML directive, found extremely long version number"
  | .directiveNameExpected =>
    "while scanning a directive, could not find expected directive name"
  | .directiveNameCharacter =>
    "while scanning a directive, found unexpected non-alphabetical character"
  | .contentAfterDirective =>
    "while scanning a directive, did not find expected comment or line break"
  | .contentAfterBlockHeader =>
    "while scanning a block scalar, did not find expected comment or line break"
  | .zeroIndentation =>
    "while scanning a block scalar, found an indentation indicator equal to 0"
  | .tabInPlain => "while scanning a plain scalar, found a tab"
  | .documentIndicatorInQuoted =>
    "while scanning a quoted scalar, found unexpected document indicator"
  | .quotedUnclosed => "while scanning a quoted scalar, found unexpected end of stream"
  | .tagBangExpected => "while scanning a tag, did not find expected '!'"
  | .tagDirectiveBangExpected => "while parsing a tag directive, did not find expected '!'"
  | .verbatimTagUnclosed => "while scanning a verbatim tag, did not find the expected '>'"
  | .contentAfterTag => "while scanning a tag, did not find expected whitespace or line break"
  | .contentAfterTagDirective =>
    "while scanning TAG, did not find expected whitespace or line break"
  | .tagUriExpected => "while parsing a tag, did not find expected tag URI"
  | .uriEscape => "while parsing a tag, found an invalid escape sequence"
  | .uriLeadingByte => "while parsing a tag, found an incorrect leading UTF-8 byte"
  | .uriTrailingByte => "while parsing a tag, found an incorrect trailing UTF-8 byte"
  | .uriCodePoint => "while parsing a tag, found an invalid UTF-8 codepoint"
  | .anchorNameExpected =>
    "while scanning an anchor or alias, did not find expected alphabetic or numeric character"
  | .blockScalarIndentation => "wrongly indented line in block scalar"
  | .flowTooDeep => "recursion limit exceeded"
  | .flowColonAdjacent => "':' may not precede any of `[\x7b` in flow mapping"
  | .keyBlankExpected => "expected whitespace"
  | .keyTab => "tabs disallowed in this context"
  | .plainDash => "plain scalar cannot start with '-' followed by ,[]\x7b\x7d"
  | .flowIndentation => "invalid indentation in flow construct"
  | .plainEmpty => "unexpected end of plain scalar"
  | .documentEndExpected => "missing explicit document end marker before directive"

/-- A fault and the offset of the character at which it lies. -/
structure SyntaxFailure where
  fault : SyntaxFault
  offset : Nat
  deriving DecidableEq

end RuleTidy.Yaml
