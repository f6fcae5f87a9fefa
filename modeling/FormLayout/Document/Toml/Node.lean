import FormLayout.Entries
/-!
TOML documents as trees, and what may be added to a table. How a table came to be decides about
this: no table is defined twice, and none in braces is extended.
-/

namespace FormLayout.Toml

/-- How a table came to be: on the way to the table of a header, on the way to a key with dots, by
a header of its own, or in braces. -/
inductive TableKind where
  | implicit
  | dotted
  | headed
  | inline
  deriving DecidableEq, Repr

/-- A value of a document. Numbers and dates are kept without their value. The tables under one
repeated header have the last one in front. -/
inductive Node where
  | text (s : String)
  | bool (b : Bool)
  | other
  | list (items : List Node)
  | tables (last : List (String × Node)) (earlier : List (List (String × Node)))
  | table (kind : TableKind) (entries : List (String × Node))
  deriving Inhabited, Repr

/-- A table and how it came to be. -/
abbrev Table := TableKind × Entries Node

namespace Table

/-- Changes the table at the end of a path. Tables that are missing on the way are made, and of
repeated tables the last one is taken. A key with dots does not go through tables with headers. -/
def change? (isKey : Bool) (f : Table → Option Table) : List String → Table → Option Table
  | [], t => f t
  | name :: path, t => do
    let child ← match Entries.get? t.2 name with
      | none => (change? isKey f path (if isKey then .dotted else .implicit, [])).map fun t =>
        Node.table t.1 t.2
      | some (.table kind entries) =>
        if kind = .inline || (isKey && kind = .headed) then none
        else (change? isKey f path (kind, entries)).map fun t => .table t.1 t.2
      | some (.tables last earlier) =>
        (change? isKey f path (.headed, last)).map fun t => .tables t.2 earlier
      | some _ => none
    return (t.1, Entries.put t.2 name child)

/-- Adds a value under a key with dots. The names in front of the last one must be tables of such
keys alone. -/
def add? (names : List String) (value : Node) : Table → Option Table :=
  let path := names.dropLast
  let put (t : Table) : Option Table :=
    match names.getLast? with
    | some name =>
      if (t.1 = .dotted) ≠ (path ≠ []) || Entries.has t.2 name then none
      else some (t.1, Entries.put t.2 name value)
    | none => none
  change? true put path

/-- Begins the table of a header. A table that was met only on the way to others is completed. -/
def begin? (names : List String) : Table → Option Table :=
  let put (t : Table) : Option Table := do
    let name ← names.getLast?
    match Entries.get? t.2 name with
    | none => return (t.1, Entries.put t.2 name (.table .headed []))
    | some (.table .implicit entries) =>
      return (t.1, Entries.put t.2 name (.table .headed entries))
    | some _ => none
  change? false put names.dropLast

/-- Begins one more table of a repeated header. -/
def beginNext? (names : List String) : Table → Option Table :=
  let put (t : Table) : Option Table := do
    let name ← names.getLast?
    match Entries.get? t.2 name with
    | none => return (t.1, Entries.put t.2 name (.tables [] []))
    | some (.tables last earlier) =>
      return (t.1, Entries.put t.2 name (.tables [] (last :: earlier)))
    | some _ => none
  change? false put names.dropLast

end Table

end FormLayout.Toml
