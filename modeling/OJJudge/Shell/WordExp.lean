import OJJudge.Shell.Segments

/-! Word expansion as POSIX describes it for `wordexp` without flags: quoting, the expansion of
parameters, commands and arithmetic, field splitting with the default separators, pathname expansion,
and the rejection of unquoted shell syntax.  The rules are those of POSIX, and not of one
implementation: what POSIX leaves open, an environment decides. -/

namespace Shell

/-! ### Quoting -/

/-- A part of a command line.  A character is quoted when it stands for itself in any case. -/
inductive Piece
  | char (quoted : Bool) (c : Char)
  | param (quoted : Bool) (name : List Char)
  /-- `${body}`. -/
  | braced (quoted : Bool) (body : List Char)
  /-- `$((body))`. -/
  | arith (quoted : Bool) (body : List Char)
  /-- `$(body)`, or a body between backquotes. -/
  | command (quoted : Bool) (body : List Char)
  /-- Quotes, which keep a word that has nothing else. -/
  | quotes
  | blank
  /-- A dollar sign of which POSIX does not say what it means, and all that follows it. -/
  | unspecified
  deriving DecidableEq

/-- What the scanner is in; `quoted` says whether double quotes are open around it. -/
inductive Mode
  | text (quoted : Bool)
  | escape (quoted : Bool)
  | single
  | dollar (quoted : Bool)
  | name (quoted : Bool) (acc : List Char)
  | body (opening : Char) (quoted : Bool) (depth : Nat) (quote : Option Char) (acc : List Char)
  | backquote (quoted escaped : Bool) (acc : List Char)
  | unspecified

def isBlank (c : Char) : Bool := c == ' ' || c == '\t'

/-- Characters that a command line may not have outside of quotes and expansions. -/
def isSyntax (c : Char) : Bool := c ∈ ['\n', '|', '&', ';', '<', '>', '(', ')', '{', '}']

/-- Characters that begin a quotation or an expansion, wherever they stand. -/
def isQuoting (c : Char) : Bool := c ∈ ['\\', '\'', '"', '`']

def isNameStart (c : Char) : Bool := c.isAlpha || c == '_'

/-- Parameters of one character. -/
def isSpecialParam (c : Char) : Bool := c.isDigit || c ∈ ['@', '*', '#', '?', '-', '$', '!']

/-- White space, in front of which a dollar sign is literal, as it is at the end of the line. -/
def keepsDollar (c : Char) : Bool := isBlank c || c == '\n'

def closing (opening : Char) : Char := if opening = '{' then '}' else ')'

/-- The expansion that ends with its closing character. -/
def enclosed (opening : Char) (quoted : Bool) (body : List Char) : Piece :=
  if opening = '{' then .braced quoted body
  else if body.head? = some '(' ∧ body.getLast? = some ')' then .arith quoted body.tail.dropLast
  else .command quoted body

/-- A character outside of expansions. -/
def readText (quoted : Bool) (c : Char) : Option (List Piece × Mode) :=
  if c = '\\' then some ([], .escape quoted)
  else if c = '"' then some ([.quotes], .text !quoted)
  else if c = '`' then some ([], .backquote quoted false [])
  else if c = '$' then some ([], .dollar quoted)
  else if quoted then some ([.char true c], .text true)
  else if c = '\'' then some ([.quotes], .single)
  else if isBlank c then some ([.blank], .text false)
  else if isSyntax c then none
  else some ([.char false c], .text false)

/-- What a backslash and the character after it stand for. -/
def unescape (quoted : Bool) (c : Char) : List Piece :=
  if c = '\n' then []
  else if quoted ∧ c ∉ ['$', '`', '"', '\\'] then [.char true '\\', .char true c]
  else [.char true c]

/-- One character of a command line; `none` when it has bad syntax. -/
def step : Mode → Char → Option (List Piece × Mode)
  | .text quoted, c => readText quoted c
  | .escape quoted, c => some (unescape quoted c, .text quoted)
  | .single, c => if c = '\'' then some ([], .text false) else some ([.char true c], .single)
  | .dollar quoted, c =>
    if isNameStart c then some ([], .name quoted [c])
    else if isSpecialParam c then some ([.param quoted [c]], .text quoted)
    else if c = '{' ∨ c = '(' then some ([], .body c quoted 0 none [])
    else if keepsDollar c then (readText quoted c).map fun r => (.char quoted '$' :: r.1, r.2)
    -- Some shells read `$[ ]` or `$' '`, and others a literal dollar sign.
    else some ([.unspecified], .unspecified)
  | .name quoted acc, c =>
    if isNameStart c || c.isDigit then some ([], .name quoted (acc ++ [c]))
    else (readText quoted c).map fun r => (.param quoted acc :: r.1, r.2)
  | .body opening quoted depth (some quote) acc, c =>
    some ([], .body opening quoted depth (if c = quote then none else some quote) (acc ++ [c]))
  | .body opening quoted depth none acc, c =>
    if c = closing opening then
      match depth with
      | 0 => some ([enclosed opening quoted acc], .text quoted)
      | depth + 1 => some ([], .body opening quoted depth none (acc ++ [c]))
    else if c = opening then some ([], .body opening quoted (depth + 1) none (acc ++ [c]))
    else if c = '\'' ∨ c = '"' then some ([], .body opening quoted depth (some c) (acc ++ [c]))
    else some ([], .body opening quoted depth none (acc ++ [c]))
  | .backquote quoted true acc, c =>
    some ([], .backquote quoted false (acc ++ if c ∈ ['$', '`', '\\'] then [c] else ['\\', c]))
  | .backquote quoted false acc, c =>
    if c = '`' then some ([.command quoted acc], .text quoted)
    else if c = '\\' then some ([], .backquote quoted true acc)
    else some ([], .backquote quoted false (acc ++ [c]))
  | .unspecified, _ => some ([], .unspecified)

/-- What is pending at the end of a command line. -/
def finish : Mode → Option (List Piece)
  | .text false => some []
  | .dollar false => some [.char false '$']
  | .name false acc => some [.param false acc]
  | .unspecified => some []
  | _ => none

/-- The pieces of a command line. -/
def lex : Mode → List Char → Option (List Piece)
  | mode, [] => finish mode
  | mode, c :: rest => (step mode c).bind fun r => (lex r.2 rest).map (r.1 ++ ·)

/-! ### Expansion -/

/-- The words of a command line, and the commands that ran for it. -/
structure Expansion where
  words : List (List Char)
  executed : List (List Char)
  deriving DecidableEq

/-- What expansion depends on. -/
structure Env where
  /-- The value of a parameter: a name, or one character. -/
  param : List Char → List Char
  /-- What the body of `${ }` expands to; `none` for bad syntax. -/
  braced : List Char → Option (List Char)
  arith : List Char → Option (List Char)
  /-- The output of a command, without the newlines at its end. -/
  command : List Char → List Char
  /-- The home directory of a login name, or of the user for the empty name. -/
  home : List Char → Option (List Char)
  /-- The paths of all files, in collation order. -/
  files : List (List Char)
  nodup_files : files.Nodup
  /-- What the implementation makes of a line whose result POSIX leaves open. -/
  unspecified : List Char → Option Expansion

/-- A character of a word, or a place where it is split. -/
inductive Glyph
  | char (quoted : Bool) (c : Char)
  | quotes
  | split
  deriving DecidableEq

/-- The value of an expansion; outside of quotes it is split at white space. -/
def valueGlyphs (quoted : Bool) (value : List Char) : List Glyph :=
  value.map fun c => if !quoted && (isBlank c || c == '\n') then .split else .char quoted c

def expandPiece (env : Env) : Piece → Option (List Glyph)
  | .char quoted c => some [.char quoted c]
  | .param quoted name => some (valueGlyphs quoted (env.param name))
  | .braced quoted body => (env.braced body).map (valueGlyphs quoted)
  | .arith quoted body => (env.arith body).map (valueGlyphs quoted)
  | .command quoted body => some (valueGlyphs quoted (env.command body))
  | .quotes => some [.quotes]
  | .blank => some [.split]
  | .unspecified => none

/-- The character of a piece that ends no login name. -/
def loginChar : Piece → Option Char
  | .char false c => if c = '/' then none else some c
  | _ => none

/-- A tilde at the beginning of a word stands with the login name after it for a home directory. -/
def expandTilde (env : Env) : List Piece → List Piece
  | .char false '~' :: rest =>
    let login := rest.takeWhile fun piece => (loginChar piece).isSome
    let tail := rest.dropWhile fun piece => (loginChar piece).isSome
    if tail = [] ∨ tail.head? = some (.char false '/') then
      match env.home (login.filterMap loginChar) with
      | none => .char false '~' :: rest
      | some home => home.map (.char true) ++ tail
    else .char false '~' :: rest
  | word => word

/-- The fields that a word expands to. -/
def expandWord (env : Env) (word : List Piece) : Option (List (List Glyph)) :=
  ((expandTilde env word).mapM (expandPiece env)).map fun glyphs =>
    segments (· = .split) glyphs.flatten

/-! ### Pathnames -/

/-- The characters of a field, and whether each is quoted. -/
abbrev Field := List (Bool × Char)

def fieldOf (glyphs : List Glyph) : Field :=
  glyphs.filterMap fun
    | .char quoted c => some (quoted, c)
    | _ => none

/-- An element of a bracket expression. -/
inductive Item
  | range (a b : Char)
  | cls (name : List Char)

/-- The classes of the C locale. -/
def classHas (name : List Char) (c : Char) : Bool :=
  if name = "alpha".toList then c.isAlpha
  else if name = "digit".toList then c.isDigit
  else if name = "alnum".toList then c.isAlphanum
  else if name = "upper".toList then c.isUpper
  else if name = "lower".toList then c.isLower
  else if name = "space".toList then c == ' ' || (9 ≤ c.toNat && c.toNat ≤ 13)
  else if name = "blank".toList then isBlank c
  else if name = "cntrl".toList then c.toNat < 32 || c.toNat == 127
  else if name = "print".toList then 32 ≤ c.toNat && c.toNat < 127
  else if name = "graph".toList then 32 < c.toNat && c.toNat < 127
  else if name = "punct".toList then 32 < c.toNat && c.toNat < 127 && !c.isAlphanum
  else if name = "xdigit".toList then c.isDigit || c.toLower ∈ "abcdef".toList
  else false

def Item.has : Item → Char → Bool
  | range a b, c => a ≤ c && c ≤ b
  | cls name, c => classHas name c

/-- The name of a class, up to its closing mark, and what follows. -/
def className (mark : Char) : Field → Option (List Char × Field)
  | a :: b :: rest =>
    if a.2 = mark ∧ b.2 = ']' then some ([], rest)
    else (className mark (b :: rest)).map fun r => (a.2 :: r.1, r.2)
  | _ => none

/-- The elements of a bracket expression, and what follows its closing bracket; `none` when it has
none.  A closing bracket in front is an element. -/
def bracketItems : Nat → Bool → Field → Option (List Item × Field)
  | fuel + 1, inFront, (quoted, c) :: rest =>
    let element (item : Item) (rest : Field) :=
      (bracketItems fuel false rest).map fun r => (item :: r.1, r.2)
    if c = '/' then none
    else if c = ']' ∧ quoted = false ∧ inFront = false then some ([], rest)
    else
      match rest with
      | (_, mark) :: after =>
        match if c = '[' ∧ quoted = false ∧ mark = ':' then className mark after else none with
        | some (name, after) => element (.cls name) after
        | none =>
          match rest with
          | (false, '-') :: (quoted', b) :: after =>
            if b = ']' ∧ quoted' = false then element (.range c c) rest else element (.range c b) after
          | _ => element (.range c c) rest
      | [] => none
  | _, _, _ => none

/-- A part of a pathname pattern. -/
inductive Pat
  | char (c : Char)
  | any
  | star
  | set (negated : Bool) (items : List Item)

/-- The bracket expression behind an opening bracket. -/
def bracket : Field → Option (Pat × Field)
  | (false, '!') :: rest => (bracketItems rest.length true rest).map fun r => (.set true r.1, r.2)
  | rest => (bracketItems rest.length true rest).map fun r => (.set false r.1, r.2)

/-- The pattern of a field, with the characters of a bracket expression to skip. -/
def pattern : Nat → Field → List Pat
  | _, [] => []
  | skip + 1, _ :: rest => pattern skip rest
  | 0, (true, c) :: rest => .char c :: pattern 0 rest
  | 0, (false, c) :: rest =>
    if c = '*' then .star :: pattern 0 rest
    else if c = '?' then .any :: pattern 0 rest
    else if c = '[' then
      match bracket rest with
      | some (pat, after) => pat :: pattern (rest.length - after.length) rest
      | none => .char c :: pattern 0 rest
    else .char c :: pattern 0 rest

/-- What a star leaves of a path: it matches no slash. -/
def starTails : List Char → List (List Char)
  | [] => [[]]
  | c :: path => (c :: path) :: if c = '/' then [] else starTails path

/-- The path matches the pattern.  In front of a path's component a dot matches only itself. -/
def matchesPath : List Pat → Bool → List Char → Bool
  | [], _, path => path = []
  | .char c :: pats, _, d :: path => c = d && matchesPath pats (c = '/') path
  | .any :: pats, inFront, d :: path =>
    d ≠ '/' && !(inFront && d = '.') && matchesPath pats false path
  | .set negated items :: pats, inFront, d :: path =>
    d ≠ '/' && !(inFront && d = '.') && items.any (·.has d) ≠ negated && matchesPath pats false path
  | .star :: pats, inFront, path =>
    !(inFront && path.head? = some '.') && (starTails path).any (matchesPath pats false)
  | _ :: _, _, [] => false

/-- The paths that match a field, or its characters when there are none. -/
def pathnames (env : Env) (field : Field) : List (List Char) :=
  let found := env.files.filter (matchesPath (pattern 0 field) true)
  if found = [] then [field.map Prod.snd] else found

/-! ### `wordexp` -/

/-- The command that a piece runs. -/
def commandOf : Piece → Option (List Char)
  | .command _ body => some body
  | _ => none

/-- `wordexp(text, &p, 0)`; `none` when it fails. -/
def wordexp (env : Env) (text : List Char) : Option Expansion :=
  (lex (.text false) text).bind fun pieces =>
    if .unspecified ∈ pieces then env.unspecified text
    else
      ((segments (· = .blank) pieces).mapM (expandWord env)).map fun fields =>
        { words := fields.flatten.flatMap fun glyphs => pathnames env (fieldOf glyphs)
          executed := pieces.filterMap commandOf }

end Shell
