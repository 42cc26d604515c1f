/-
# `Reql.Command.Catalogue` — the commands every registry starts with

What each command of the query language takes, group by group, and the
other spellings that commands answer to.
-/
import Reql.Command.Basic

namespace Reql.Command.Catalogue

/-! ## Options that several commands share -/

/-- Whether an end of a range belongs to it. -/
def bound : Check := .oneOf ["open", "closed"]

/-- When a write counts as done. -/
def durability : Check := .oneOf ["hard", "soft"]

def boundOptions : List OptionSpec :=
  [⟨"left_bound", bound⟩, ⟨"right_bound", bound⟩]

def betweenOptions : List OptionSpec := ⟨"index", .string⟩ :: boundOptions

def tableOptions : List OptionSpec :=
  [ ⟨"read_mode", .oneOf ["single", "majority", "outdated"]⟩,
    ⟨"identifier_format", .oneOf ["name", "uuid"]⟩]

def tableCreateOptions : List OptionSpec :=
  [ ⟨"primary_key", .string⟩,
    ⟨"shards", .integer⟩,
    ⟨"replicas", .any⟩,
    ⟨"primary_replica_tag", .string⟩,
    ⟨"nonvoting_replica_tags", .array⟩,
    ⟨"durability", durability⟩]

def reconfigureOptions : List OptionSpec :=
  [ ⟨"shards", .integer⟩,
    ⟨"replicas", .any⟩,
    ⟨"primary_replica_tag", .string⟩,
    ⟨"nonvoting_replica_tags", .array⟩,
    ⟨"dry_run", .bool⟩,
    ⟨"emergency_repair", .oneOf ["unsafe_rollback", "unsafe_rollback_or_erase"]⟩]

def waitOptions : List OptionSpec :=
  [ ⟨"wait_for", .oneOf ["ready_for_outdated_reads", "ready_for_reads", "ready_for_writes",
      "all_replicas_ready"]⟩,
    ⟨"timeout", .number⟩]

def insertOptions : List OptionSpec :=
  [ ⟨"durability", durability⟩,
    ⟨"return_changes", .any⟩,
    ⟨"conflict", .stringOrFunction 3⟩,
    ⟨"ignore_write_hook", .bool⟩]

def updateOptions : List OptionSpec :=
  [ ⟨"durability", durability⟩,
    ⟨"return_changes", .any⟩,
    ⟨"non_atomic", .bool⟩,
    ⟨"ignore_write_hook", .bool⟩]

def deleteOptions : List OptionSpec :=
  [⟨"durability", durability⟩, ⟨"return_changes", .any⟩, ⟨"ignore_write_hook", .bool⟩]

def changesOptions : List OptionSpec :=
  [ ⟨"squash", .any⟩,
    ⟨"changefeed_queue_size", .integer⟩,
    ⟨"include_initial", .bool⟩,
    ⟨"include_states", .bool⟩,
    ⟨"include_offsets", .bool⟩,
    ⟨"include_types", .bool⟩]

def httpOptions : List OptionSpec :=
  [ ⟨"timeout", .number⟩,
    ⟨"attempts", .integer⟩,
    ⟨"redirects", .integer⟩,
    ⟨"verify", .bool⟩,
    ⟨"result_format", .oneOf ["text", "json", "jsonp", "binary", "auto"]⟩,
    ⟨"method", .oneOf ["GET", "POST", "PUT", "PATCH", "DELETE", "HEAD"]⟩,
    ⟨"auth", .object⟩,
    ⟨"params", .object⟩,
    ⟨"header", .any⟩,
    ⟨"data", .any⟩]

def indexOption : List OptionSpec :=
  [⟨"index", .string⟩]

/-! ## Databases and tables -/

def administration : List Command := [
  { name := "db", operation := .db, required := [.string] },
  { name := "db_create", operation := .dbCreate, required := [.string] },
  { name := "db_drop", operation := .dbDrop, required := [.string] },
  { name := "db_list", operation := .dbList },
  { name := "table", operation := .table, required := [.string], options := tableOptions,
    assembly := .scoped },
  { name := "table_create", operation := .tableCreate, required := [.string],
    options := tableCreateOptions, assembly := .tableCreate },
  { name := "table_drop", operation := .tableDrop, required := [.string], assembly := .scoped },
  { name := "table_list", operation := .tableList, assembly := .scoped },
  { name := "index_create", operation := .indexCreate, required := [.kind .table, .string],
    optional := [.function 1], options := [⟨"multi", .bool⟩, ⟨"geo", .bool⟩] },
  { name := "index_drop", operation := .indexDrop, required := [.kind .table, .string] },
  { name := "index_list", operation := .indexList, required := [.kind .table] },
  { name := "index_status", operation := .indexStatus, required := [.kind .table],
    rest := some .string },
  { name := "index_wait", operation := .indexWait, required := [.kind .table],
    rest := some .string },
  { name := "index_rename", operation := .indexRename,
    required := [.kind .table, .string, .string], options := [⟨"overwrite", .bool⟩] },
  { name := "sync", operation := .sync, required := [.kind .table] },
  { name := "config", operation := .config, required := [.any] },
  { name := "status", operation := .status, required := [.any] },
  { name := "wait", operation := .wait, required := [.any], options := waitOptions },
  { name := "reconfigure", operation := .reconfigure, required := [.any],
    options := reconfigureOptions },
  { name := "rebalance", operation := .rebalance, required := [.any] },
  { name := "grant", operation := .grant, required := [.string, .object], assembly := .scoped }]

/-! ## Reads -/

def reads : List Command := [
  { name := "get", operation := .get, required := [.kind .table, .primaryKey] },
  { name := "get_all", operation := .getAll, required := [.kind .table, .primaryKey],
    rest := some .primaryKey, options := indexOption },
  { name := "between", operation := .between, required := [.selection, .any, .any],
    options := betweenOptions },
  { name := "filter", operation := .filter, required := [.sequence, .predicate 1],
    options := [⟨"default", .any⟩] }]

/-! ## Writes -/

def writes : List Command := [
  { name := "insert", operation := .insert, required := [.kind .table, .any],
    options := insertOptions },
  { name := "update", operation := .update, required := [.selection, .predicate 1],
    options := updateOptions },
  { name := "replace", operation := .replace, required := [.selection, .predicate 1],
    options := updateOptions },
  { name := "delete", operation := .delete, required := [.selection], options := deleteOptions }]

/-! ## Transformations -/

def transformations : List Command := [
  { name := "map", operation := .map, required := [.sequence, .function 1] },
  { name := "with_fields", operation := .withFields, required := [.sequence, .path],
    rest := some .path },
  { name := "concat_map", operation := .concatMap, required := [.sequence, .function 1] },
  { name := "order_by", operation := .orderBy, required := [.sequence], rest := some .any,
    options := [⟨"index", .any⟩] },
  { name := "asc", operation := .asc, required := [.stringOrFunction 1] },
  { name := "desc", operation := .desc, required := [.stringOrFunction 1] },
  { name := "skip", operation := .skip, required := [.sequence, .integer] },
  { name := "limit", operation := .limit, required := [.sequence, .integer] },
  { name := "slice", operation := .slice, required := [.sequence, .integer],
    optional := [.integer], options := boundOptions },
  { name := "nth", operation := .nth, required := [.sequence, .integer] },
  { name := "offsets_of", operation := .offsetsOf, required := [.sequence, .predicate 1] },
  { name := "is_empty", operation := .isEmpty, required := [.sequence] },
  { name := "union", operation := .union, required := [.sequence], rest := some .sequence,
    options := [⟨"interleave", .any⟩] },
  { name := "sample", operation := .sample, required := [.sequence, .integer] },
  { name := "distinct", operation := .distinct, required := [.sequence],
    options := indexOption },
  { name := "changes", operation := .changes, required := [.sequence],
    options := changesOptions }]

/-! ## Joins -/

def joins : List Command := [
  { name := "inner_join", operation := .innerJoin,
    required := [.sequence, .sequence, .function 2] },
  { name := "outer_join", operation := .outerJoin,
    required := [.sequence, .sequence, .function 2] },
  { name := "eq_join", operation := .eqJoin,
    required := [.sequence, .stringOrFunction 1, .selection],
    options := [⟨"index", .string⟩, ⟨"ordered", .bool⟩] },
  { name := "zip", operation := .zip, required := [.sequence] },
  { name := "range", operation := .range, optional := [.integer, .integer] }]

/-! ## Aggregation -/

def aggregations : List Command := [
  { name := "group", operation := .group, required := [.sequence],
    rest := some (.stringOrFunction 1), options := [⟨"index", .string⟩, ⟨"multi", .bool⟩] },
  { name := "ungroup", operation := .ungroup, required := [.any] },
  { name := "reduce", operation := .reduce, required := [.sequence, .function 2] },
  { name := "fold", operation := .fold, required := [.sequence, .any, .function 2],
    options := [⟨"emit", .function 3⟩, ⟨"final_emit", .function 1⟩] },
  { name := "count", operation := .count, required := [.any], optional := [.predicate 1] },
  { name := "sum", operation := .sum, required := [.sequence],
    optional := [.stringOrFunction 1] },
  { name := "avg", operation := .avg, required := [.sequence],
    optional := [.stringOrFunction 1] },
  { name := "min", operation := .min, required := [.sequence],
    optional := [.stringOrFunction 1], options := indexOption },
  { name := "max", operation := .max, required := [.sequence],
    optional := [.stringOrFunction 1], options := indexOption },
  { name := "contains", operation := .contains, required := [.sequence, .predicate 1],
    rest := some (.predicate 1) }]

/-! ## Documents -/

def documents : List Command := [
  { name := "pluck", operation := .pluck, required := [.any, .path], rest := some .path },
  { name := "without", operation := .without, required := [.any, .path], rest := some .path },
  { name := "merge", operation := .merge, required := [.any, .predicate 1],
    rest := some (.predicate 1) },
  { name := "append", operation := .append, required := [.array, .any] },
  { name := "prepend", operation := .prepend, required := [.array, .any] },
  { name := "difference", operation := .difference, required := [.array, .array] },
  { name := "set_insert", operation := .setInsert, required := [.array, .any] },
  { name := "set_union", operation := .setUnion, required := [.array, .array] },
  { name := "set_intersection", operation := .setIntersection, required := [.array, .array] },
  { name := "set_difference", operation := .setDifference, required := [.array, .array] },
  { name := "get_field", operation := .getField, required := [.any, .string] },
  { name := "bracket", operation := .bracket, required := [.any, .any] },
  { name := "has_fields", operation := .hasFields, required := [.any, .path],
    rest := some .path },
  { name := "insert_at", operation := .insertAt, required := [.array, .integer, .any] },
  { name := "splice_at", operation := .spliceAt, required := [.array, .integer, .array] },
  { name := "delete_at", operation := .deleteAt, required := [.array, .integer],
    optional := [.integer] },
  { name := "change_at", operation := .changeAt, required := [.array, .integer, .any] },
  { name := "keys", operation := .keys, required := [.object] },
  { name := "values", operation := .values, required := [.object] },
  { name := "literal", operation := .literal, optional := [.any] },
  { name := "object", operation := .object, rest := some .any, assembly := .object }]

/-! ## Arithmetic and logic -/

def arithmetic : List Command := [
  { name := "add", operation := .add, required := [.any], rest := some .any },
  { name := "sub", operation := .sub, required := [.any], rest := some .any },
  { name := "mul", operation := .mul, required := [.any], rest := some .any },
  { name := "div", operation := .div, required := [.any], rest := some .any },
  { name := "mod", operation := .mod, required := [.number, .number] },
  { name := "floor", operation := .floor, required := [.number] },
  { name := "ceil", operation := .ceil, required := [.number] },
  { name := "round", operation := .round, required := [.number] },
  { name := "and", operation := .and, rest := some .any },
  { name := "or", operation := .or, rest := some .any },
  { name := "eq", operation := .eq, required := [.any, .any], rest := some .any },
  { name := "ne", operation := .ne, required := [.any, .any], rest := some .any },
  { name := "lt", operation := .lt, required := [.any, .any], rest := some .any },
  { name := "le", operation := .le, required := [.any, .any], rest := some .any },
  { name := "gt", operation := .gt, required := [.any, .any], rest := some .any },
  { name := "ge", operation := .ge, required := [.any, .any], rest := some .any },
  { name := "not", operation := .not, required := [.any] },
  { name := "random", operation := .random, optional := [.number, .number],
    options := [⟨"float", .bool⟩] }]

/-! ## Strings -/

def strings : List Command := [
  { name := "match", operation := .matchText, required := [.string, .string] },
  { name := "split", operation := .split, required := [.string], optional := [.any, .integer] },
  { name := "upcase", operation := .upcase, required := [.string] },
  { name := "downcase", operation := .downcase, required := [.string] }]

/-! ## Time -/

def times : List Command := [
  { name := "now", operation := .now },
  { name := "time", operation := .time, required := [.number, .number, .number, .any],
    optional := [.any, .any, .any], assembly := .time },
  { name := "epoch_time", operation := .epochTime, required := [.number] },
  { name := "iso8601", operation := .iso8601, required := [.string],
    options := [⟨"default_timezone", .string⟩] },
  { name := "in_timezone", operation := .inTimezone, required := [.any, .string] },
  { name := "timezone", operation := .timezone, required := [.any] },
  { name := "during", operation := .during, required := [.any, .any, .any],
    options := boundOptions },
  { name := "date", operation := .date, required := [.any] },
  { name := "time_of_day", operation := .timeOfDay, required := [.any] },
  { name := "year", operation := .year, required := [.any] },
  { name := "month", operation := .month, required := [.any] },
  { name := "day", operation := .day, required := [.any] },
  { name := "day_of_week", operation := .dayOfWeek, required := [.any] },
  { name := "day_of_year", operation := .dayOfYear, required := [.any] },
  { name := "hours", operation := .hours, required := [.any] },
  { name := "minutes", operation := .minutes, required := [.any] },
  { name := "seconds", operation := .seconds, required := [.any] },
  { name := "to_iso8601", operation := .toIso8601, required := [.any] },
  { name := "to_epoch_time", operation := .toEpochTime, required := [.any] }]

/-! ## Control -/

def control : List Command := [
  { name := "do", operation := .funcall, required := [.any], rest := some .any,
    assembly := .call },
  { name := "branch", operation := .branch, required := [.any, .any, .any], rest := some .any,
    assembly := .branch },
  { name := "for_each", operation := .forEach, required := [.sequence, .function 1] },
  { name := "error", operation := .error, optional := [.string] },
  { name := "default", operation := .defaultTo, required := [.any, .any] },
  { name := "js", operation := .javascript, required := [.string],
    options := [⟨"timeout", .number⟩] },
  { name := "coerce_to", operation := .coerceTo, required := [.any, .string] },
  { name := "type_of", operation := .typeOf, required := [.any] },
  { name := "info", operation := .info, required := [.any] },
  { name := "json", operation := .json, required := [.string] },
  { name := "to_json_string", operation := .toJsonString, required := [.any] },
  { name := "http", operation := .http, required := [.string], options := httpOptions },
  { name := "uuid", operation := .uuid, optional := [.string] },
  { name := "args", operation := .args, required := [.array] },
  { name := "binary", operation := .binary, required := [.any] },
  { name := "minval", operation := .minval },
  { name := "maxval", operation := .maxval }]

/-! ## The catalogue -/

/-- Every command, each under its own name. -/
def commands : List Command :=
  administration ++ reads ++ writes ++ transformations ++ joins ++ aggregations
    ++ documents ++ arithmetic ++ strings ++ times ++ control

/-- Other spellings, each with the name of its command. -/
def spellings : List (String × String) := [
  ("+", "add"), ("-", "sub"), ("*", "mul"), ("/", "div"),
  ("%", "mod"), ("=", "eq"), ("==", "eq"), ("not=", "ne"),
  ("!=", "ne"), ("<", "lt"), ("<=", "le"), (">", "gt"),
  (">=", "ge"), ("funcall", "do"), ("javascript", "js"), ("indexes_of", "offsets_of")]

/-- The command of a name, whatever a registry holds. -/
def find? (name : String) : Option Command := commands.find? fun c => c.name == name

end Reql.Command.Catalogue
