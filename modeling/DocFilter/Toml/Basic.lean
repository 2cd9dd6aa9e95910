/-!
# Settings

The values of a settings file in TOML, as far as configurations need them: strings, integers,
booleans and tables. A table remembers how it came about, because that decides who may add to it.

## Main definitions

* `Toml`: the values.
* `Toml.open?`: the settings after the header of a table.
* `Toml.put?`: the settings after an assignment.
-/

namespace DocFilter

/-- How a table came about. -/
inductive Origin where
  /-- By a header of its own. -/
  | header
  /-- By the header of a table inside it. -/
  | implied
  /-- By a dotted key. -/
  | dotted
  /-- Between braces. -/
  | inline
deriving DecidableEq, Repr

/-- A value of a settings file. -/
inductive Toml where
  | string (s : String)
  | integer (n : Int)
  | boolean (b : Bool)
  | table (origin : Origin) (entries : List (String × Toml))
deriving Inhabited

namespace Toml

/-- Replaces the value of a key, or adds one, by a function of the value it has. -/
def alter? (key : String) (f : Option Toml → Option Toml) :
    List (String × Toml) → Option (List (String × Toml))
  | [] => (f none).map fun v => [(key, v)]
  | (k, v) :: rest =>
    if k = key then (f (some v)).map fun v => (k, v) :: rest
    else (alter? key f rest).map ((k, v) :: ·)

/-- The entries after the header of the table at `path`. A table has one header at most, and none
if it came about by a dotted key or between braces. -/
def open? : List String → List (String × Toml) → Option (List (String × Toml))
  | [], _ => none
  | [key], entries =>
    alter? key (fun
      | none => some (table .header [])
      | some (table .implied inner) => some (table .header inner)
      | some _ => none) entries
  | key :: path, entries =>
    alter? key (fun
      | none => (open? path []).map (table .implied)
      | some (table .inline _) => none
      | some (table origin inner) => (open? path inner).map (table origin)
      | some _ => none) entries

/-- The entries after an assignment to a key with dots in a table. The tables on the way must not
have a header or braces, and the last of them must have come about by a dotted key. -/
def assign? (value : Toml) : List String → List (String × Toml) → Option (List (String × Toml))
  | [], _ => none
  | [key], entries => alter? key (fun | none => some value | some _ => none) entries
  | key :: path, entries =>
    alter? key (fun
      | none => (assign? value path []).map (table .dotted)
      | some (table .dotted inner) => (assign? value path inner).map (table .dotted)
      | some (table .implied inner) =>
        if path.length = 1 then none else (assign? value path inner).map (table .implied)
      | some _ => none) entries

/-- The entries after an assignment in the table with the header `path`. -/
def put? (value : Toml) (keys : List String) :
    List String → List (String × Toml) → Option (List (String × Toml))
  | [], entries => assign? value keys entries
  | key :: path, entries =>
    alter? key (fun
      | some (table origin inner) => (put? value keys path inner).map (table origin)
      | _ => none) entries

end Toml

end DocFilter
