import WarehouseRows.Members

/-!
# Archetypes

Values of one sort share members that none of them holds: the functions of the sort,
and a few constants. They sit in an archetype. Behind the archetype of a sort there
may be a more general one; the last in every line is that of plain objects.

## Main definitions

* `Archetype`: the sorts of values that share members.
* `Archetype.maker`: the function that makes values of the sort.
* `Archetype.functions`: the names of the shared functions.
* `Archetype.guarded`: the names that only the values of a sort itself answer to.
* `Archetype.lineage`: an archetype with the more general ones behind it.
-/

namespace WarehouseRows

/-- The sorts of values that share members. -/
inductive Archetype where
  | object
  | list
  | string
  | number
  | bool
  | integer
  | sequence
  | bytes
  | buffer
  | instant
  | decimal
  | date
  | time
  | dateTime
  | map
  | error
  | typeError
  | failure
  deriving DecidableEq, Repr, Inhabited

namespace Archetype

/-- The name of the function that makes values of the sort. -/
def maker : Archetype → String
  | .object => "Object"
  | .list => "Array"
  | .string => "String"
  | .number => "Number"
  | .bool => "Boolean"
  | .integer => "BigInt"
  | .sequence => "TypedArray"
  | .bytes => "Uint8Array"
  | .buffer => "ArrayBuffer"
  | .instant => "Date"
  | .decimal => "Decimal"
  | .date => "LocalDate"
  | .time => "LocalTime"
  | .dateTime => "LocalDateTime"
  | .map => "Map"
  | .error => "Error"
  | .typeError => "TypeError"
  | .failure => "ConversionError"

/-- The names under which the shared functions of a sort are found. -/
def functions : Archetype → List String
  | .object =>
    ["toString", "valueOf", "hasOwnProperty", "isPrototypeOf", "propertyIsEnumerable",
      "toLocaleString", "__defineGetter__", "__defineSetter__", "__lookupGetter__",
      "__lookupSetter__"]
  | .list =>
    ["at", "concat", "copyWithin", "entries", "every", "fill", "filter", "find", "findIndex",
      "findLast", "findLastIndex", "flat", "flatMap", "forEach", "includes", "indexOf", "join",
      "keys", "lastIndexOf", "map", "pop", "push", "reduce", "reduceRight", "reverse", "shift",
      "slice", "some", "sort", "splice", "toLocaleString", "toReversed", "toSorted", "toSpliced",
      "toString", "unshift", "values", "with"]
  | .string =>
    ["anchor", "at", "big", "blink", "bold", "charAt", "charCodeAt", "codePointAt", "concat",
      "endsWith", "fixed", "fontcolor", "fontsize", "includes", "indexOf", "isWellFormed",
      "italics", "lastIndexOf", "link", "localeCompare", "match", "matchAll", "normalize",
      "padEnd", "padStart", "repeat", "replace", "replaceAll", "search", "slice", "small",
      "split", "startsWith", "strike", "sub", "substr", "substring", "sup",
      "toLocaleLowerCase", "toLocaleUpperCase", "toLowerCase", "toString", "toUpperCase",
      "toWellFormed", "trim", "trimEnd", "trimLeft", "trimRight", "trimStart", "valueOf"]
  | .number =>
    ["toExponential", "toFixed", "toLocaleString", "toPrecision", "toString", "valueOf"]
  | .bool => ["toString", "valueOf"]
  | .integer => ["toLocaleString", "toString", "valueOf"]
  | .sequence =>
    ["at", "copyWithin", "entries", "every", "fill", "filter", "find", "findIndex", "findLast",
      "findLastIndex", "forEach", "includes", "indexOf", "join", "keys", "lastIndexOf", "map",
      "reduce", "reduceRight", "reverse", "set", "slice", "some", "sort", "subarray",
      "toLocaleString", "toReversed", "toSorted", "toString", "values", "with"]
  | .bytes => []
  | .buffer => ["resize", "slice", "transfer", "transferToFixedLength"]
  | .instant =>
    ["getDate", "getDay", "getFullYear", "getHours", "getMilliseconds", "getMinutes",
      "getMonth", "getSeconds", "getTime", "getTimezoneOffset", "getUTCDate", "getUTCDay",
      "getUTCFullYear", "getUTCHours", "getUTCMilliseconds", "getUTCMinutes", "getUTCMonth",
      "getUTCSeconds", "getYear", "setDate", "setFullYear", "setHours", "setMilliseconds",
      "setMinutes", "setMonth", "setSeconds", "setTime", "setUTCDate", "setUTCFullYear",
      "setUTCHours", "setUTCMilliseconds", "setUTCMinutes", "setUTCMonth", "setUTCSeconds",
      "setYear", "toDateString", "toGMTString", "toISOString", "toJSON", "toLocaleDateString",
      "toLocaleString", "toLocaleTimeString", "toString", "toTimeString", "toUTCString",
      "valueOf"]
  | .decimal =>
    ["compareTo", "equals", "setScale", "toJSON", "toNumber", "toString", "toUnscaledBytes"]
  | .date => ["equals", "toEpochDay", "toJSON", "toString"]
  | .time => ["equals", "toJSON", "toNanoOfDay", "toString"]
  | .dateTime => ["equals", "toJSON", "toString"]
  | .map => ["clear", "delete", "entries", "forEach", "get", "has", "keys", "set", "values"]
  | .error => ["toString"]
  | .typeError => []
  | .failure => ["toActionableMessage", "toJSON", "withField"]

/-- The names of functions that go by another name of their own. -/
def aliases : List (String × String) :=
  [("trimLeft", "trimStart"), ("trimRight", "trimEnd"), ("toGMTString", "toUTCString")]

/-- The own name of the function found under a name. -/
def functionName (name : String) : String :=
  (aliases.lookup name).getD name

/-- The name of the member that holds the maker. -/
def makerName : String := "constructor"

/-- The own name of the function that an archetype holds under a name. -/
def function? (k : Archetype) (name : String) : Option String :=
  if name = makerName then some k.maker
  else if k.functions.contains name then some (functionName name)
  else none

/-- The names that only the values of a sort itself answer to, each with what the
archetype calls the member. -/
def guarded : Archetype → List (String × String)
  | .sequence =>
    [("buffer", "%TypedArray%.prototype.buffer"),
      ("byteLength", "TypedArray.prototype.byteLength"),
      ("byteOffset", "TypedArray.prototype.byteOffset"),
      ("length", "TypedArray.prototype.length")]
  | .buffer =>
    ["byteLength", "detached", "maxByteLength", "resizable"].map fun name =>
      (name, "ArrayBuffer.prototype." ++ name)
  | .map => [("size", "Map.prototype.size")]
  | _ => []

/-- The more general archetypes behind an archetype, nearest first. -/
def ancestors : Archetype → List Archetype
  | .object => []
  | .bytes => [.sequence, .object]
  | .typeError => [.error, .object]
  | .failure => [.error, .object]
  | _ => [.object]

/-- An archetype with the more general ones behind it. -/
def lineage (k : Archetype) : List Archetype :=
  k :: k.ancestors

end Archetype

end WarehouseRows
