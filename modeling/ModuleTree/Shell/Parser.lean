import ModuleTree.Shell.Script
/- Reading shell scripts. -/
namespace ModuleTree.Shell

abbrev Parsed (α : Type) := Except String (α × List Char)

def isNameStart (c : Char) : Bool := c.isAlpha || c = '_'

def isNamePart (c : Char) : Bool := c.isAlphanum || c = '_'

def isBlankChar (c : Char) : Bool := c = ' ' || c = '\t'

def isMeta (c : Char) : Bool :=
  c = ' ' || c = '\t' || c = '\n' || c = ';' || c = '&' || c = '|' || c = '<' || c = '>'
    || c = '(' || c = ')'

def isSpecial (c : Char) : Bool :=
  c = '@' || c = '*' || c = '#' || c = '?' || c = '$' || c = '!' || c = '-' || c.isDigit

def bytesOf (cs : List Char) : Bytes := cs.flatMap String.utf8EncodeChar

def skipBlanks : List Char → List Char
  | '\\' :: '\n' :: s => skipBlanks s
  | '#' :: s => s.dropWhile (· ≠ '\n')
  | c :: s => if isBlankChar c then skipBlanks s else c :: s
  | [] => []

def skipLines : Nat → List Char → List Char
  | 0, s => s
  | fuel + 1, s =>
    match skipBlanks s with
    | '\n' :: s => skipLines fuel s
    | s => s

def parameterName : List Char → Option (String × List Char)
  | [] => none
  | c :: s =>
    if isNameStart c then
      some (String.ofList (c :: s.takeWhile isNamePart), s.dropWhile isNamePart)
    else if isSpecial c then some (String.singleton c, s)
    else none

def bracedName : List Char → Option (String × List Char)
  | [] => none
  | c :: s =>
    if c.isDigit then
      some (String.ofList (c :: s.takeWhile Char.isDigit), s.dropWhile Char.isDigit)
    else parameterName (c :: s)

def editMark : List Char → Option (Edit × List Char)
  | '%' :: '%' :: s => some (.cutEnd true, s)
  | '%' :: s => some (.cutEnd false, s)
  | '#' :: '#' :: s => some (.cutStart true, s)
  | '#' :: s => some (.cutStart false, s)
  | ':' :: '-' :: s => some (.fallback true, s)
  | '-' :: s => some (.fallback false, s)
  | ':' :: '=' :: s => some (.assign true, s)
  | '=' :: s => some (.assign false, s)
  | ':' :: '+' :: s => some (.replace true, s)
  | '+' :: s => some (.replace false, s)
  | ':' :: '?' :: s => some (.demand true, s)
  | '?' :: s => some (.demand false, s)
  | _ => none

inductive Setting where
  | bare
  | quotes
  | braces (quoted : Bool)
  | whole
  deriving DecidableEq

def Setting.isQuoted : Setting → Bool
  | bare => false
  | quotes => true
  | braces quoted => quoted
  | whole => true

def Setting.endsAt (setting : Setting) (c : Char) : Bool :=
  match setting with
  | bare => isMeta c
  | quotes => c = '"'
  | braces _ => c = '\x7d'
  | whole => false

def redirectMark (s : List Char) : Option (Nat × Bool × List Char) :=
  let digits := s.takeWhile Char.isDigit
  let number := (String.ofList digits).toNat?
  if digits.length ≤ 1 then
    match s.dropWhile Char.isDigit with
    | '>' :: '&' :: s => some (number.getD 1, true, s)
    | '<' :: '&' :: s => some (number.getD 0, true, s)
    | '>' :: '>' :: s => some (number.getD 1, false, s)
    | '>' :: '|' :: s => some (number.getD 1, false, s)
    | '>' :: s => some (number.getD 1, false, s)
    | '<' :: s => some (number.getD 0, false, s)
    | _ => none
  else none

def redirectTarget (duplicates : Bool) (word : Bytes) : Option Target :=
  if duplicates then
    match word with
    | [d] =>
      if d = 0x2D then some .closed
      else if 0x30 ≤ d && d ≤ 0x39 then some (.same (d.toNat - 48))
      else none
    | _ => none
  else some (.path word)

def assignmentMark (s : List Char) : Option (String × List Char) :=
  match s with
  | c :: _ =>
    if isNameStart c then
      match s.dropWhile isNamePart with
      | '=' :: rest => some (String.ofList (s.takeWhile isNamePart), rest)
      | _ => none
    else none
  | [] => none

def closers : List String := ["done", "do", "esac", "then", "else", "elif", "fi", "\x7d"]

def leadingWord (s : List Char) : String := String.ofList (s.takeWhile (!isMeta ·))

def dropWord (w : String) (s : List Char) : Option (List Char) :=
  if leadingWord s = w then some (s.drop w.length) else none

def reserved : List String := ["!", "\x7b", "case", "for", "if", "in", "until", "while"] ++ closers

def shownToken (s : List Char) : String :=
  match s with
  | [] => "end of file"
  | '\n' :: _ => "newline"
  | '<' :: _ | '>' :: _ => "redirection"
  | ';' :: ';' :: _ => "\";;\""
  | '&' :: '&' :: _ => "\"&&\""
  | '|' :: '|' :: _ => "\"||\""
  | c :: _ =>
    if isMeta c then "\"" ++ String.singleton c ++ "\""
    else if reserved.contains (leadingWord s) then "\"" ++ leadingWord s ++ "\""
    else "word"

def unexpected (s : List Char) : String := s!"Syntax error: {shownToken s} unexpected"

def unexpectedFor (s : List Char) (wanted : String) : String :=
  unexpected s ++ " (expecting \"" ++ wanted ++ "\")"

def takeSum : Nat → List Char → Option (List Char × List Char)
  | 0, ')' :: ')' :: s => some ([], s)
  | _, [] => none
  | depth, '(' :: s => (takeSum (depth + 1) s).map fun (text, rest) => ('(' :: text, rest)
  | depth + 1, ')' :: s => (takeSum depth s).map fun (text, rest) => (')' :: text, rest)
  | depth, c :: s => (takeSum depth s).map fun (text, rest) => (c :: text, rest)

def takeBackquoted (quoted : Bool) : List Char → Option (List Char × List Char)
  | [] => none
  | '\x60' :: s => some ([], s)
  | '\\' :: c :: s =>
    let protects : Bool := c = '$' || c = '\x60' || c = '\\' || (quoted && c = '"')
    (takeBackquoted quoted s).map fun (text, rest) =>
      (if protects then c :: text else '\\' :: c :: text, rest)
  | c :: s => (takeBackquoted quoted s).map fun (text, rest) => (c :: text, rest)

def functionMark (s : List Char) : Option (String × List Char) :=
  match s with
  | c :: _ =>
    if isNameStart c then
      match skipBlanks (s.dropWhile isNamePart) with
      | '(' :: rest =>
        match skipBlanks rest with
        | ')' :: rest => some (String.ofList (s.takeWhile isNamePart), rest)
        | _ => none
      | _ => none
    else none
  | [] => none

def keepsBackslash (c : Char) : Bool := !(c = '$' || c = '"' || c = '\\' || c = '\x60')

mutual

def parseWord : Nat → Setting → List Char → Parsed Word
  | 0, _, s => .error (unexpected s)
  | _ + 1, setting, [] =>
    match setting with
    | .bare => .ok (.nil, [])
    | .quotes => .error "Syntax error: Unterminated quoted string"
    | .braces _ => .error "Syntax error: Missing '\x7d'"
    | .whole => .ok (.nil, [])
  | fuel + 1, setting, c :: s =>
    if setting.endsAt c then .ok (.nil, c :: s)
    else if c = '\\' then
      match s with
      | [] => .ok (.literal [0x5C] true .nil, [])
      | '\n' :: s => parseWord fuel setting s
      | d :: s =>
        let kept := setting.isQuoted && keepsBackslash d && !setting.endsAt d
        let bytes := if kept then bytesOf ['\\', d] else bytesOf [d]
        (parseWord fuel setting s).map fun (w, s) => (.literal bytes true w, s)
    else if c = '\'' && !setting.isQuoted then
      match s.dropWhile (· ≠ '\'') with
      | [] => .error "Syntax error: Unterminated quoted string"
      | _ :: after =>
        (parseWord fuel setting after).map fun (w, rest) =>
          (.literal (bytesOf (s.takeWhile (· ≠ '\''))) true w, rest)
    else if c = '"' then
      match parseWord fuel .quotes s with
      | .error e => .error e
      | .ok (inner, s) =>
        (parseWord fuel setting (s.drop 1)).map fun (w, s) =>
          (.literal [] true (inner.append w), s)
    else if c = '\x60' then
      match takeBackquoted setting.isQuoted s with
      | none => .error "Syntax error: EOF in backquote substitution"
      | some (text, s) =>
        match parseScript fuel text with
        | .error e => .error e
        | .ok (script, []) =>
          (parseWord fuel setting s).map fun (w, s) => (.output script setting.isQuoted w, s)
        | .ok (_, rest) => .error (unexpected rest)
    else if c = '$' then
      match parseDollar fuel setting.isQuoted s with
      | .error e => .error e
      | .ok (inner, s) => (parseWord fuel setting s).map fun (w, s) => (inner.append w, s)
    else
      let plain (d : Char) : Bool :=
        !(setting.endsAt d || d = '\\' || d = '"' || d = '$' || d = '\x60'
          || (d = '\'' && !setting.isQuoted))
      (parseWord fuel setting (s.dropWhile plain)).map fun (w, rest) =>
        (.literal (bytesOf (c :: s.takeWhile plain)) setting.isQuoted w, rest)

def parseDollar : Nat → Bool → List Char → Parsed Word
  | 0, _, s => .error (unexpected s)
  | fuel + 1, quoted, s =>
    match s with
    | '(' :: '(' :: s =>
      match takeSum 0 s with
      | none => .error "Syntax error: Missing '))'"
      | some (text, rest) =>
        (parseWord fuel .whole text).map fun (w, _) => (.sum w quoted .nil, rest)
    | '(' :: s =>
      match parseScript fuel s with
      | .error e => .error e
      | .ok (script, rest) =>
        match rest with
        | ')' :: rest => .ok (.output script quoted .nil, rest)
        | rest => .error (unexpectedFor rest ")")
    | '\x7b' :: '#' :: s =>
      match bracedName s with
      | some (name, '\x7d' :: rest) => .ok (.size name quoted .nil, rest)
      | _ =>
        match s with
        | '\x7d' :: rest => .ok (.value "#" quoted .nil, rest)
        | _ => .error "Bad substitution"
    | '\x7b' :: s =>
      match bracedName s with
      | none => .error "Bad substitution"
      | some (name, '\x7d' :: rest) => .ok (.value name quoted .nil, rest)
      | some (name, rest) =>
        match editMark rest with
        | none => .error "Bad substitution"
        | some (edit, rest) =>
          match parseWord fuel (.braces (quoted && !edit.isCut)) rest with
          | .error e => .error e
          | .ok (operand, rest) => .ok (.edited name edit operand quoted .nil, rest.drop 1)
    | s =>
      match parameterName s with
      | some (name, rest) => .ok (.value name quoted .nil, rest)
      | none => .ok (.literal [0x24] quoted .nil, s)

def parseScript : Nat → List Char → Parsed Script
  | 0, s => .error (unexpected s)
  | fuel + 1, s =>
    let s := skipLines s.length s
    match s with
    | [] => .ok (.nil, [])
    | ')' :: _ => .ok (.nil, s)
    | ';' :: ';' :: _ => .ok (.nil, s)
    | _ =>
      if closers.contains (leadingWord s) then .ok (.nil, s)
      else
        match parseChain fuel s with
        | .error e => .error e
        | .ok (first, s) =>
          match skipBlanks s with
          | ';' :: ';' :: s => .ok (first, ';' :: ';' :: s)
          | '&' :: '&' :: s => .ok (first, '&' :: '&' :: s)
          | '&' :: s =>
            (parseScript fuel s).map fun (rest, s) => (.sequence (.background first) rest, s)
          | ';' :: s => (parseScript fuel s).map fun (rest, s) => (.sequence first rest, s)
          | '\n' :: s => (parseScript fuel s).map fun (rest, s) => (.sequence first rest, s)
          | s => .ok (first, s)

def parseBody : Nat → String → List Char → Parsed Script
  | 0, _, s => .error (unexpected s)
  | fuel + 1, closer, s =>
    match parseScript fuel s with
    | .error e => .error e
    | .ok (.nil, c :: s) => .error (unexpected (c :: s))
    | .ok (body, s) =>
      match dropWord closer s with
      | some s => .ok (body, s)
      | none => .error (unexpectedFor s closer)

def parseChain : Nat → List Char → Parsed Script
  | 0, s => .error (unexpected s)
  | fuel + 1, s =>
    match parsePipeline fuel s with
    | .error e => .error e
    | .ok (first, s) => parseChainRest fuel first s

def parseChainRest : Nat → Script → List Char → Parsed Script
  | 0, _, s => .error (unexpected s)
  | fuel + 1, first, s =>
    match skipBlanks s with
    | '&' :: '&' :: s =>
      match parsePipeline fuel (skipLines s.length s) with
      | .error e => .error e
      | .ok (second, s) => parseChainRest fuel (.both first second) s
    | '|' :: '|' :: s =>
      match parsePipeline fuel (skipLines s.length s) with
      | .error e => .error e
      | .ok (second, s) => parseChainRest fuel (.either first second) s
    | s => .ok (first, s)

def parsePipeline : Nat → List Char → Parsed Script
  | 0, s => .error (unexpected s)
  | fuel + 1, s =>
    match dropWord "!" (skipBlanks s) with
    | some s => (parsePipeline fuel s).map fun (body, s) => (.negated body, s)
    | none =>
      match parseCommand fuel (skipBlanks s) with
      | .error e => .error e
      | .ok (first, s) => parsePipelineRest fuel first s

def parsePipelineRest : Nat → Script → List Char → Parsed Script
  | 0, _, s => .error (unexpected s)
  | fuel + 1, first, s =>
    match skipBlanks s with
    | '|' :: '|' :: s => .ok (first, '|' :: '|' :: s)
    | '|' :: s =>
      match parseCommand fuel (skipLines s.length s) with
      | .error e => .error e
      | .ok (second, s) => parsePipelineRest fuel (.piped first second) s
    | s => .ok (first, s)

def parseCommand : Nat → List Char → Parsed Script
  | 0, s => .error (unexpected s)
  | fuel + 1, s =>
    let compound : Option (Parsed Script) :=
      match s with
      | '(' :: s => some (
        match parseScript fuel s with
        | .error e => .error e
        | .ok (.nil, c :: s) => .error (unexpected (c :: s))
        | .ok (body, ')' :: s) => .ok (.subshell body, s)
        | .ok (_, s) => .error (unexpectedFor s ")"))
      | s =>
        match leadingWord s with
        | "\x7b" => some (parseBody fuel "\x7d" (s.drop 1))
        | "if" => some (parseBranch fuel (s.drop 2))
        | "for" => some (parseEach fuel (skipBlanks (s.drop 3)))
        | "while" => some (parseLoop fuel true (s.drop 5))
        | "until" => some (parseLoop fuel false (s.drop 5))
        | "case" => some (parseChoice fuel (skipBlanks (s.drop 4)))
        | _ =>
          match functionMark s with
          | none => none
          | some (name, s) => some (
            (parseCommand fuel (skipLines s.length s)).map fun (body, s) => (.define name body, s))
    match compound with
    | some (.error e) => .error e
    | some (.ok (body, s)) =>
      match parseRedirects fuel s with
      | .error e => .error e
      | .ok ([], s) => .ok (body, s)
      | .ok (redirects, s) => .ok (.redirected body redirects, s)
    | none => parseSimple fuel [] [] [] s

def parseRedirects : Nat → List Char → Parsed (List Redirect)
  | 0, s => .error (unexpected s)
  | fuel + 1, s =>
    match redirectMark (skipBlanks s) with
    | none => .ok ([], s)
    | some (descriptor, duplicates, s) =>
      match parseTarget fuel duplicates s with
      | .error e => .error e
      | .ok (target, s) =>
        (parseRedirects fuel s).map fun (rest, s) => (⟨descriptor, target⟩ :: rest, s)

def parseTarget : Nat → Bool → List Char → Parsed Target
  | 0, _, s => .error (unexpected s)
  | fuel + 1, duplicates, s =>
    match parseWord fuel .bare (skipBlanks s) with
    | .error e => .error e
    | .ok (.nil, s) => .error (unexpected s)
    | .ok (word, s) =>
      match word.plain?.bind (redirectTarget duplicates) with
      | none => .error "Syntax error: Bad fd number"
      | some target => .ok (target, s)

def parseSimple : Nat → List (String × Word) → List Word → List Redirect → List Char →
    Parsed Script
  | 0, _, _, _, s => .error (unexpected s)
  | fuel + 1, assignments, words, redirects, s =>
    let s := skipBlanks s
    let finish (s : List Char) : Parsed Script :=
      if assignments.isEmpty && words.isEmpty && redirects.isEmpty then .error (unexpected s)
      else
        let command :=
          Script.simple (.ofList assignments.reverse) (.ofList words.reverse)
        .ok (if redirects.isEmpty then command else .redirected command redirects.reverse, s)
    match redirectMark s with
    | some (descriptor, duplicates, s) =>
      match parseTarget fuel duplicates s with
      | .error e => .error e
      | .ok (target, s) => parseSimple fuel assignments words (⟨descriptor, target⟩ :: redirects) s
    | none =>
      match s with
      | [] => finish []
      | c :: _ =>
        if isMeta c then finish s
        else
          match if words.isEmpty then assignmentMark s else none with
          | some (name, s) =>
            match parseWord fuel .bare s with
            | .error e => .error e
            | .ok (word, s) => parseSimple fuel ((name, word) :: assignments) words redirects s
          | none =>
            match parseWord fuel .bare s with
            | .error e => .error e
            | .ok (word, s) => parseSimple fuel assignments (word :: words) redirects s

def parseBranch : Nat → List Char → Parsed Script
  | 0, s => .error (unexpected s)
  | fuel + 1, s =>
    match parseBody fuel "then" s with
    | .error e => .error e
    | .ok (test, s) =>
      match parseScript fuel s with
      | .error e => .error e
      | .ok (.nil, c :: s) => .error (unexpected (c :: s))
      | .ok (body, s) =>
        match leadingWord s with
        | "elif" =>
          (parseBranch fuel (s.drop 4)).map fun (otherwise, s) => (.branch test body otherwise, s)
        | "else" =>
          (parseBody fuel "fi" (s.drop 4)).map fun (otherwise, s) =>
            (.branch test body otherwise, s)
        | "fi" => .ok (.branch test body .nil, s.drop 2)
        | _ => .error (unexpectedFor s "fi")

def parseLoop : Nat → Bool → List Char → Parsed Script
  | 0, _, s => .error (unexpected s)
  | fuel + 1, wanted, s =>
    match parseBody fuel "do" s with
    | .error e => .error e
    | .ok (test, s) => (parseBody fuel "done" s).map fun (body, s) => (.loop wanted test body, s)

def parseEach : Nat → List Char → Parsed Script
  | 0, s => .error (unexpected s)
  | fuel + 1, s =>
    let name := String.ofList (s.takeWhile isNamePart)
    if !(s.head?.any isNameStart) then .error "Syntax error: Bad for loop variable"
    else
      let s := skipBlanks (s.dropWhile isNamePart)
      let listed : Parsed (List Word) :=
        match dropWord "in" s with
        | some s =>
          match parseWords fuel s with
          | .ok (_, []) => .error (unexpected [])
          | listed => listed
        | none => .ok ([.value "@" true .nil], s)
      match listed with
      | .error e => .error e
      | .ok (words, s) =>
        let s := skipBlanks s
        let s := skipLines s.length (match s with
          | ';' :: s => s
          | s => s)
        match dropWord "do" s with
        | none => .error (unexpectedFor s "do")
        | some s =>
          (parseBody fuel "done" s).map fun (body, s) => (.each name (.ofList words) body, s)

def parseWords : Nat → List Char → Parsed (List Word)
  | 0, s => .error (unexpected s)
  | fuel + 1, s =>
    match skipBlanks s with
    | [] => .ok ([], [])
    | c :: s =>
      if isMeta c then .ok ([], c :: s)
      else
        match parseWord fuel .bare (c :: s) with
        | .error e => .error e
        | .ok (word, s) => (parseWords fuel s).map fun (rest, s) => (word :: rest, s)

def parseChoice : Nat → List Char → Parsed Script
  | 0, s => .error (unexpected s)
  | fuel + 1, s =>
    match parseWord fuel .bare s with
    | .error e => .error e
    | .ok (word, s) =>
      match dropWord "in" (skipLines s.length s) with
      | none => .error (unexpectedFor (skipLines s.length s) "in")
      | some s =>
        (parseCases fuel s).map fun (cases, s) => (.choose word cases, s)

def parseCases : Nat → List Char → Parsed Cases
  | 0, s => .error (unexpected s)
  | fuel + 1, s =>
    let s := skipLines s.length s
    match dropWord "esac" s with
    | some s => .ok (.nil, s)
    | none =>
      match parsePatterns fuel (match s with
        | '(' :: s => s
        | s => s) with
      | .error e => .error e
      | .ok (patterns, s) =>
        match parseScript fuel s with
        | .error e => .error e
        | .ok (body, ';' :: ';' :: s) =>
          (parseCases fuel s).map fun (rest, s) => (.cons (.ofList patterns) body rest, s)
        | .ok (body, s) =>
          match dropWord "esac" s with
          | some s => .ok (.cons (.ofList patterns) body .nil, s)
          | none => .error (unexpectedFor s ";;")

def parsePatterns : Nat → List Char → Parsed (List Word)
  | 0, s => .error (unexpected s)
  | fuel + 1, s =>
    match parseWord fuel .bare (skipBlanks s) with
    | .error e => .error e
    | .ok (word, s) =>
      match skipBlanks s with
      | '|' :: s => (parsePatterns fuel s).map fun (rest, s) => (word :: rest, s)
      | ')' :: s => .ok ([word], s)
      | s => .error (unexpectedFor s ")")

end

def parse (text : List Char) : Except String Script :=
  match parseScript (12 * text.length + 16) text with
  | .error e => .error e
  | .ok (script, []) => .ok script
  | .ok (_, rest) => .error (unexpected rest)

end ModuleTree.Shell
