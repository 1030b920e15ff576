/-
SsaTypes/Signatures/Standard.lean

The signatures of the standard library.
-/
import SsaTypes.Signatures.Basic

namespace SsaTypes.Signatures

/-- The standard functions.  An empty text stands where the result depends on
the arguments. -/
def standardFunctions : List (String × String) :=
  [("strlen", "int"), ("count", "int"), ("sizeof", "int"), ("strpos", "int|false"),
   ("stripos", "int|false"), ("strrpos", "int|false"), ("substr", "string"),
   ("str_replace", "string|array"), ("str_repeat", "string"), ("strtolower", "string"),
   ("strtoupper", "string"), ("ucfirst", "string"), ("trim", "string"), ("ltrim", "string"),
   ("rtrim", "string"), ("sprintf", "string"), ("implode", "string"), ("join", "string"),
   ("explode", "string[]|false"), ("str_split", "string[]"), ("json_encode", "string|false"),
   ("json_decode", "mixed"), ("serialize", "string"), ("unserialize", "mixed"),
   ("var_export", "string|null"), ("intval", "int"), ("floatval", "float"), ("strval", "string"),
   ("boolval", "bool"), ("is_int", "bool"), ("is_string", "bool"), ("is_array", "bool"),
   ("is_null", "bool"), ("is_object", "bool"), ("is_callable", "bool"), ("in_array", "bool"),
   ("array_key_exists", "bool"), ("array_keys", "array"), ("array_values", "array"),
   ("array_merge", "array"), ("array_map", "array"), ("array_filter", "array"),
   ("array_search", "int|string|false"), ("range", "array"), ("abs", "int|float"),
   ("floor", "float"), ("ceil", "float"), ("round", "float"), ("sqrt", "float"), ("rand", "int"),
   ("mt_rand", "int"), ("time", "int"), ("microtime", "string|float"), ("date", "string"),
   ("file_get_contents", "string|false"), ("file_put_contents", "int|false"), ("fopen", "mixed"),
   ("func_get_args", "array"), ("get_class", "string"), ("spl_object_hash", "string"),
   ("max", ""), ("min", ""), ("array_pop", ""), ("array_shift", ""), ("current", ""),
   ("reset", "")]

/-- The standard constants. -/
def standardConstants : List (String × String) :=
  [("PHP_EOL", "string"), ("PHP_VERSION", "string"), ("PHP_OS", "string"), ("PHP_INT_MAX", "int"),
   ("PHP_INT_MIN", "int"), ("PHP_INT_SIZE", "int"), ("PHP_FLOAT_EPSILON", "float"),
   ("M_PI", "float"), ("E_ALL", "int"), ("E_ERROR", "int"), ("E_WARNING", "int"),
   ("E_NOTICE", "int"), ("SORT_REGULAR", "int"), ("JSON_PRETTY_PRINT", "int"),
   ("DIRECTORY_SEPARATOR", "string"), ("NAN", "float"), ("INF", "float")]

/-- The standard classes: their names, the names from which they have methods,
and their own methods. -/
def standardClasses : List (String × List String × List (String × String)) :=
  [("traversable", [], []),
   ("iterator", ["traversable"],
    [("current", "mixed"), ("key", "mixed"), ("next", "void"), ("rewind", "void"),
     ("valid", "bool")]),
   ("iteratoraggregate", ["traversable"],
    [("getiterator", "Traversable")]),
   ("countable", [],
    [("count", "int")]),
   ("arrayaccess", [],
    [("offsetexists", "bool"), ("offsetget", "mixed"), ("offsetset", "void"),
     ("offsetunset", "void")]),
   ("arrayiterator", ["iterator", "traversable", "arrayaccess", "countable"],
    [("getarraycopy", "array")]),
   ("arrayobject", ["iteratoraggregate", "traversable", "arrayaccess", "countable"],
    [("getarraycopy", "array"), ("getiterator", "ArrayIterator")]),
   ("throwable", [],
    [("getmessage", "string"), ("getcode", "int"), ("getfile", "string"), ("getline", "int"),
     ("gettrace", "array"), ("getprevious", "?Throwable"), ("gettraceasstring", "string")]),
   ("exception", ["throwable"], []),
   ("error", ["throwable"], []),
   ("runtimeexception", ["exception", "throwable"], []),
   ("logicexception", ["exception", "throwable"], []),
   ("invalidargumentexception", ["logicexception", "exception", "throwable"], []),
   ("datetimeinterface", [],
    [("format", "string"), ("gettimestamp", "int")]),
   ("datetime", ["datetimeinterface"],
    [("modify", "DateTime|false"), ("settimestamp", "DateTime")]),
   ("datetimeimmutable", ["datetimeinterface"],
    [("modify", "DateTimeImmutable|false")]),
   ("closure", [],
    [("bind", "?Closure"), ("bindto", "?Closure"), ("call", "mixed")]),
   ("splobjectstorage", ["countable", "iterator", "traversable", "arrayaccess"],
    [("contains", "bool"), ("attach", "void"), ("detach", "void")])]

/-- The table of the standard library. -/
def standard : Signatures :=
  let t := standardFunctions.foldl (fun t f => t.addFunction f.1 ⟨some f.2⟩) empty
  let t := standardConstants.foldl (fun t c => t.addConstant c.1 c.2) t
  standardClasses.foldl (fun t c =>
    t.addClass c.1 ⟨c.2.1, c.2.2.foldl (fun ms m => ms.insert m.1 ⟨some m.2⟩) .empty⟩) t

end SsaTypes.Signatures
