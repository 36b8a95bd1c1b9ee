/-! # Help

The texts that the command line shows on request.
-/
namespace InsertBench.CommandLine

def version : String := "txnbench 0.1.0"

def about : String :=
  "Measures sustained insert throughput of a transactional store under concurrent writers"

def usageLine : String :=
  "Usage: txnbench [OPTIONS] <TOTAL_ROWS> <ROWS_PER_TXN> <THREAD_COUNT> [INIT_MODE]"

def briefHelp : List String := [
  about,
  "",
  usageLine,
  "",
  "Arguments:",
  "  <TOTAL_ROWS>    Rows to insert across all threads",
  "  <ROWS_PER_TXN>  Rows inserted by each transaction",
  "  <THREAD_COUNT>  Concurrent writer threads",
  "  [INIT_MODE]     When each thread opens its store session [default: eager] [possible values: eager, lazy]",
  "",
  "Options:",
  "      --store <STORE>              [default: mem-btree] [possible values: mem-btree, redb, sled]",
  "      --table <TABLE>              [default: bench]",
  "      --two-phase                  Prepare every transaction before committing it",
  "      --max-retries <MAX_RETRIES>  Give up when a batch conflicts more than this many times",
  "      --verify                     Count the stored rows after the run and fail on a mismatch",
  "  -h, --help                       Print help (see more with '--help')",
  "  -V, --version                    Print version"]

def fullHelp : List String := [
  about,
  "",
  usageLine,
  "",
  "Arguments:",
  "  <TOTAL_ROWS>",
  "          Rows to insert across all threads",
  "",
  "  <ROWS_PER_TXN>",
  "          Rows inserted by each transaction",
  "",
  "  <THREAD_COUNT>",
  "          Concurrent writer threads",
  "",
  "  [INIT_MODE]",
  "          When each thread opens its store session",
  "",
  "          Possible values:",
  "          - eager: At construction, before the clock starts",
  "          - lazy:  On the first call to run, inside the timed region",
  "          ",
  "          [default: eager]",
  "",
  "Options:",
  "      --store <STORE>",
  "          [default: mem-btree]",
  "          [possible values: mem-btree, redb, sled]",
  "",
  "      --table <TABLE>",
  "          [default: bench]",
  "",
  "      --two-phase",
  "          Prepare every transaction before committing it",
  "",
  "      --max-retries <MAX_RETRIES>",
  "          Give up when a batch conflicts more than this many times",
  "",
  "      --verify",
  "          Count the stored rows after the run and fail on a mismatch",
  "",
  "  -h, --help",
  "          Print help (see a summary with '-h')",
  "",
  "  -V, --version",
  "          Print version"]

end InsertBench.CommandLine
