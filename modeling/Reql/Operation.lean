/-
# `Reql.Operation` — the operations a query is made of

Each node of a query names its operation, which has a number on the wire and
an upper-case name.  The numbers are those of the query protocol.
-/

namespace Reql

/-- What a node of a query does. -/
inductive Operation where
  -- core data types
  | datum | makeArray | makeObj | var | javascript | error | implicitVar
  -- database and table access
  | db | table | get | getAll
  -- comparison operators
  | eq | ne | lt | le | gt | ge | not
  -- math operators
  | add | sub | mul | div | mod | floor | ceil | round
  -- array/set operations
  | append | prepend | difference | setInsert | setIntersection | setUnion | setDifference
  -- sequence operations
  | slice | skip | limit | offsetsOf | contains
  -- object operations
  | getField | keys | values | object | hasFields | withFields | pluck | without | merge
  | literal
  -- selections and transformations
  | between | reduce | map | fold | filter | concatMap | orderBy | distinct | count | isEmpty
  | union | nth | bracket | sample | asc | desc
  -- joins
  | innerJoin | outerJoin | eqJoin | zip | range
  -- array mutations
  | insertAt | deleteAt | changeAt | spliceAt
  -- type operations
  | coerceTo | typeOf | info | json | toJsonString
  -- write operations
  | update | delete | replace | insert
  -- database admin
  | dbCreate | dbDrop | dbList
  -- table admin
  | tableCreate | tableDrop | tableList | config | status | reconfigure | wait | rebalance
  | sync | grant
  -- secondary indexes
  | indexCreate | indexDrop | indexList | indexStatus | indexWait | indexRename
  -- control flow
  | funcall | branch | or | and | forEach | func | defaultTo | args
  -- strings
  | matchText | upcase | downcase | split
  -- time
  | iso8601 | toIso8601 | epochTime | toEpochTime | now | inTimezone | during | date
  | timeOfDay | timezone | year | month | day | dayOfWeek | dayOfYear | hours | minutes
  | seconds | time
  -- grouping and aggregations
  | group | sum | avg | min | max | ungroup
  -- miscellaneous
  | random | changes | http | binary | uuid | minval | maxval
  deriving DecidableEq, Repr, Inhabited

namespace Operation

/-- Every operation, in the order of the table. -/
def all : List Operation := [
  .datum, .makeArray, .makeObj, .var, .javascript, .error, .implicitVar, .db, .table, .get,
  .getAll, .eq, .ne, .lt, .le, .gt, .ge, .not, .add, .sub, .mul, .div, .mod, .floor, .ceil,
  .round, .append, .prepend, .difference, .setInsert, .setIntersection, .setUnion,
  .setDifference, .slice, .skip, .limit, .offsetsOf, .contains, .getField, .keys, .values,
  .object, .hasFields, .withFields, .pluck, .without, .merge, .literal, .between, .reduce,
  .map, .fold, .filter, .concatMap, .orderBy, .distinct, .count, .isEmpty, .union, .nth,
  .bracket, .sample, .asc, .desc, .innerJoin, .outerJoin, .eqJoin, .zip, .range, .insertAt,
  .deleteAt, .changeAt, .spliceAt, .coerceTo, .typeOf, .info, .json, .toJsonString, .update,
  .delete, .replace, .insert, .dbCreate, .dbDrop, .dbList, .tableCreate, .tableDrop,
  .tableList, .config, .status, .reconfigure, .wait, .rebalance, .sync, .grant, .indexCreate,
  .indexDrop, .indexList, .indexStatus, .indexWait, .indexRename, .funcall, .branch, .or, .and,
  .forEach, .func, .defaultTo, .args, .matchText, .upcase, .downcase, .split, .iso8601,
  .toIso8601, .epochTime, .toEpochTime, .now, .inTimezone, .during, .date, .timeOfDay,
  .timezone, .year, .month, .day, .dayOfWeek, .dayOfYear, .hours, .minutes, .seconds, .time,
  .group, .sum, .avg, .min, .max, .ungroup, .random, .changes, .http, .binary, .uuid, .minval,
  .maxval]

/-- The number of the operation on the wire. -/
def code : Operation → Nat
  | .datum => 1
  | .makeArray => 2
  | .makeObj => 3
  | .var => 10
  | .javascript => 11
  | .error => 12
  | .implicitVar => 13
  | .db => 14
  | .table => 15
  | .get => 16
  | .getAll => 78
  | .eq => 17
  | .ne => 18
  | .lt => 19
  | .le => 20
  | .gt => 21
  | .ge => 22
  | .not => 23
  | .add => 24
  | .sub => 25
  | .mul => 26
  | .div => 27
  | .mod => 28
  | .floor => 183
  | .ceil => 184
  | .round => 185
  | .append => 29
  | .prepend => 80
  | .difference => 95
  | .setInsert => 88
  | .setIntersection => 89
  | .setUnion => 90
  | .setDifference => 91
  | .slice => 30
  | .skip => 70
  | .limit => 71
  | .offsetsOf => 87
  | .contains => 93
  | .getField => 31
  | .keys => 94
  | .values => 186
  | .object => 143
  | .hasFields => 32
  | .withFields => 96
  | .pluck => 33
  | .without => 34
  | .merge => 35
  | .literal => 137
  | .between => 182
  | .reduce => 37
  | .map => 38
  | .fold => 187
  | .filter => 39
  | .concatMap => 40
  | .orderBy => 41
  | .distinct => 42
  | .count => 43
  | .isEmpty => 86
  | .union => 44
  | .nth => 45
  | .bracket => 170
  | .sample => 81
  | .asc => 73
  | .desc => 74
  | .innerJoin => 48
  | .outerJoin => 49
  | .eqJoin => 50
  | .zip => 72
  | .range => 173
  | .insertAt => 82
  | .deleteAt => 83
  | .changeAt => 84
  | .spliceAt => 85
  | .coerceTo => 51
  | .typeOf => 52
  | .info => 79
  | .json => 98
  | .toJsonString => 172
  | .update => 53
  | .delete => 54
  | .replace => 55
  | .insert => 56
  | .dbCreate => 57
  | .dbDrop => 58
  | .dbList => 59
  | .tableCreate => 60
  | .tableDrop => 61
  | .tableList => 62
  | .config => 174
  | .status => 175
  | .reconfigure => 176
  | .wait => 177
  | .rebalance => 179
  | .sync => 138
  | .grant => 188
  | .indexCreate => 75
  | .indexDrop => 76
  | .indexList => 77
  | .indexStatus => 139
  | .indexWait => 140
  | .indexRename => 156
  | .funcall => 64
  | .branch => 65
  | .or => 66
  | .and => 67
  | .forEach => 68
  | .func => 69
  | .defaultTo => 92
  | .args => 154
  | .matchText => 97
  | .upcase => 141
  | .downcase => 142
  | .split => 149
  | .iso8601 => 99
  | .toIso8601 => 100
  | .epochTime => 101
  | .toEpochTime => 102
  | .now => 103
  | .inTimezone => 104
  | .during => 105
  | .date => 106
  | .timeOfDay => 126
  | .timezone => 127
  | .year => 128
  | .month => 129
  | .day => 130
  | .dayOfWeek => 131
  | .dayOfYear => 132
  | .hours => 133
  | .minutes => 134
  | .seconds => 135
  | .time => 136
  | .group => 144
  | .sum => 145
  | .avg => 146
  | .min => 147
  | .max => 148
  | .ungroup => 150
  | .random => 151
  | .changes => 152
  | .http => 153
  | .binary => 155
  | .uuid => 169
  | .minval => 180
  | .maxval => 181

/-- The name of the operation in the protocol. -/
def name : Operation → String
  | .datum => "DATUM"
  | .makeArray => "MAKE_ARRAY"
  | .makeObj => "MAKE_OBJ"
  | .var => "VAR"
  | .javascript => "JAVASCRIPT"
  | .error => "ERROR"
  | .implicitVar => "IMPLICIT_VAR"
  | .db => "DB"
  | .table => "TABLE"
  | .get => "GET"
  | .getAll => "GET_ALL"
  | .eq => "EQ"
  | .ne => "NE"
  | .lt => "LT"
  | .le => "LE"
  | .gt => "GT"
  | .ge => "GE"
  | .not => "NOT"
  | .add => "ADD"
  | .sub => "SUB"
  | .mul => "MUL"
  | .div => "DIV"
  | .mod => "MOD"
  | .floor => "FLOOR"
  | .ceil => "CEIL"
  | .round => "ROUND"
  | .append => "APPEND"
  | .prepend => "PREPEND"
  | .difference => "DIFFERENCE"
  | .setInsert => "SET_INSERT"
  | .setIntersection => "SET_INTERSECTION"
  | .setUnion => "SET_UNION"
  | .setDifference => "SET_DIFFERENCE"
  | .slice => "SLICE"
  | .skip => "SKIP"
  | .limit => "LIMIT"
  | .offsetsOf => "OFFSETS_OF"
  | .contains => "CONTAINS"
  | .getField => "GET_FIELD"
  | .keys => "KEYS"
  | .values => "VALUES"
  | .object => "OBJECT"
  | .hasFields => "HAS_FIELDS"
  | .withFields => "WITH_FIELDS"
  | .pluck => "PLUCK"
  | .without => "WITHOUT"
  | .merge => "MERGE"
  | .literal => "LITERAL"
  | .between => "BETWEEN"
  | .reduce => "REDUCE"
  | .map => "MAP"
  | .fold => "FOLD"
  | .filter => "FILTER"
  | .concatMap => "CONCAT_MAP"
  | .orderBy => "ORDER_BY"
  | .distinct => "DISTINCT"
  | .count => "COUNT"
  | .isEmpty => "IS_EMPTY"
  | .union => "UNION"
  | .nth => "NTH"
  | .bracket => "BRACKET"
  | .sample => "SAMPLE"
  | .asc => "ASC"
  | .desc => "DESC"
  | .innerJoin => "INNER_JOIN"
  | .outerJoin => "OUTER_JOIN"
  | .eqJoin => "EQ_JOIN"
  | .zip => "ZIP"
  | .range => "RANGE"
  | .insertAt => "INSERT_AT"
  | .deleteAt => "DELETE_AT"
  | .changeAt => "CHANGE_AT"
  | .spliceAt => "SPLICE_AT"
  | .coerceTo => "COERCE_TO"
  | .typeOf => "TYPE_OF"
  | .info => "INFO"
  | .json => "JSON"
  | .toJsonString => "TO_JSON_STRING"
  | .update => "UPDATE"
  | .delete => "DELETE"
  | .replace => "REPLACE"
  | .insert => "INSERT"
  | .dbCreate => "DB_CREATE"
  | .dbDrop => "DB_DROP"
  | .dbList => "DB_LIST"
  | .tableCreate => "TABLE_CREATE"
  | .tableDrop => "TABLE_DROP"
  | .tableList => "TABLE_LIST"
  | .config => "CONFIG"
  | .status => "STATUS"
  | .reconfigure => "RECONFIGURE"
  | .wait => "WAIT"
  | .rebalance => "REBALANCE"
  | .sync => "SYNC"
  | .grant => "GRANT"
  | .indexCreate => "INDEX_CREATE"
  | .indexDrop => "INDEX_DROP"
  | .indexList => "INDEX_LIST"
  | .indexStatus => "INDEX_STATUS"
  | .indexWait => "INDEX_WAIT"
  | .indexRename => "INDEX_RENAME"
  | .funcall => "FUNCALL"
  | .branch => "BRANCH"
  | .or => "OR"
  | .and => "AND"
  | .forEach => "FOR_EACH"
  | .func => "FUNC"
  | .defaultTo => "DEFAULT"
  | .args => "ARGS"
  | .matchText => "MATCH"
  | .upcase => "UPCASE"
  | .downcase => "DOWNCASE"
  | .split => "SPLIT"
  | .iso8601 => "ISO8601"
  | .toIso8601 => "TO_ISO8601"
  | .epochTime => "EPOCH_TIME"
  | .toEpochTime => "TO_EPOCH_TIME"
  | .now => "NOW"
  | .inTimezone => "IN_TIMEZONE"
  | .during => "DURING"
  | .date => "DATE"
  | .timeOfDay => "TIME_OF_DAY"
  | .timezone => "TIMEZONE"
  | .year => "YEAR"
  | .month => "MONTH"
  | .day => "DAY"
  | .dayOfWeek => "DAY_OF_WEEK"
  | .dayOfYear => "DAY_OF_YEAR"
  | .hours => "HOURS"
  | .minutes => "MINUTES"
  | .seconds => "SECONDS"
  | .time => "TIME"
  | .group => "GROUP"
  | .sum => "SUM"
  | .avg => "AVG"
  | .min => "MIN"
  | .max => "MAX"
  | .ungroup => "UNGROUP"
  | .random => "RANDOM"
  | .changes => "CHANGES"
  | .http => "HTTP"
  | .binary => "BINARY"
  | .uuid => "UUID"
  | .minval => "MINVAL"
  | .maxval => "MAXVAL"

/-- The name without underscores, each word with one capital: `MakeArray`. -/
def camelName (op : Operation) : String :=
  String.ofList (go true op.name.toList)
where
  /-- `start` says that the next letter begins a word. -/
  go (start : Bool) : List Char → List Char
    | [] => []
    | c :: rest =>
      if c = '_' then go true rest
      else (if start then c else c.toLower) :: go false rest

/-- The operation with a number. -/
def ofCode? (code : Nat) : Option Operation := all.find? fun op => op.code == code

/-- The operation with a name. -/
def ofName? (name : String) : Option Operation := all.find? fun op => op.name == name

/-- The operation with a name in camel case. -/
def ofCamelName? (name : String) : Option Operation := all.find? fun op => op.camelName == name

/-- The operations whose result is a selection: rows that can still be narrowed,
changed or deleted in place. -/
def selections : List Operation :=
  [.table, .get, .getAll, .between, .filter, .orderBy, .slice, .skip, .limit, .nth, .sample,
    .distinct]

/-- The operations besides selections that produce a sequence. -/
def sequences : List Operation :=
  [.map, .concatMap, .union, .zip, .range, .innerJoin, .outerJoin, .eqJoin, .pluck, .without,
    .withFields, .merge, .tableList, .dbList, .indexList, .changes]

end Operation

end Reql
