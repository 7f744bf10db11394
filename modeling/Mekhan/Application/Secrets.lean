import Mekhan.Domain.Dispatch

/-!
# Secrets in a configuration

`shared/secrets/src/resolver.rs`: the references `{{secret:KEY}}` of a configuration, that is of a
JSON value are replaced by what the secret store says. The store itself is a parameter.
-/

namespace Mekhan

open Infra

inductive SecretError where
  | notFound (key : String)
  | storeUnavailable (message : String)
  | accessDenied (key : String)
  deriving DecidableEq

def SecretError.display : SecretError → String
  | .notFound key => "secret not found: " ++ key
  | .storeUnavailable message => "secret store unavailable: " ++ message
  | .accessDenied key => "access denied for secret: " ++ key

/-- A secret backend by its `get`. -/
abbrev SecretStore := String → Except SecretError String

namespace Secrets

def head : List Char := ['\x7b', '\x7b'] ++ "secret:".toList

/-- The reference at the front of the text, if there is one: its key and what follows it. The key
runs up to the first closing brace. -/
def refAt (text : List Char) : Option (List Char × List Char) :=
  if head.isPrefixOf text then
    let key := (text.drop head.length).takeWhile (· ≠ '\x7d')
    match key, (text.drop head.length).dropWhile (· ≠ '\x7d') with
    | _ :: _, '\x7d' :: '\x7d' :: rest => some (key, rest)
    | _, _ => none
  else none

/-- The keys of the references of a text, leftmost first, without overlaps. `fuel` bounds the
positions tried. -/
def keysOf : Nat → List Char → List (List Char)
  | 0, _ => []
  | _ + 1, [] => []
  | fuel + 1, c :: rest =>
    match refAt (c :: rest) with
    | some (key, after) => key :: keysOf fuel after
    | none => keysOf fuel rest

def refText (key : List Char) : List Char := head ++ key ++ ['\x7d', '\x7d']

/-- `str::replace`: every occurrence of `pat`, left to right. -/
def replaceAll (pat new : List Char) : Nat → List Char → List Char
  | 0, text => text
  | _ + 1, [] => []
  | fuel + 1, c :: rest =>
    if pat.isPrefixOf (c :: rest) then new ++ replaceAll pat new fuel ((c :: rest).drop pat.length)
    else c :: replaceAll pat new fuel rest

/-- The loop of `resolve_string` over the references of the original text. -/
def replaceRefs (store : SecretStore) : List (List Char) → List Char → Except SecretError String
  | [], text => .ok (String.ofList text)
  | key :: keys, text => do
    let resolved ← store (String.ofList key)
    replaceRefs store keys (replaceAll (refText key) resolved.toList (text.length + 1) text)

def resolveString (store : SecretStore) (s : String) : Except SecretError Json :=
  match keysOf (s.length + 1) s.toList with
  | [] => .ok (.str s)
  | key :: keys =>
    if s.toList = refText key then (store (String.ofList key)).map .str
    else (replaceRefs store (key :: keys) s.toList).map .str

end Secrets

mutual

def resolveSecrets (impl : MapImpl) (store : SecretStore) : Json → Except SecretError Json
  | .null => .ok .null
  | .bool b => .ok (.bool b)
  | .num n => .ok (.num n)
  | .str s => Secrets.resolveString store s
  | .arr elems => (resolveSecretsList impl store elems).map .arr
  | .obj entries => (resolveSecretsEntries impl store entries).map fun es => .obj (collect impl es)

def resolveSecretsList (impl : MapImpl) (store : SecretStore) :
    List Json → Except SecretError (List Json)
  | [] => .ok []
  | v :: vs => do
    let v' ← resolveSecrets impl store v
    let vs' ← resolveSecretsList impl store vs
    .ok (v' :: vs')

def resolveSecretsEntries (impl : MapImpl) (store : SecretStore) :
    List (String × Json) → Except SecretError (List (String × Json))
  | [] => .ok []
  | (k, v) :: es => do
    let v' ← resolveSecrets impl store v
    let es' ← resolveSecretsEntries impl store es
    .ok ((k, v') :: es')

end

end Mekhan
