import ShellToC.Code.Helper

/-
  This file defines the C text of the helpers and of the
  lines that every generated program starts with.

  Key definitions include:
    * `Helper.declaration`
    * `Helper.definition`
    * `Program.preamble`
-/

namespace ShellToC

------------------------------------------------------------
-- Layout
------------------------------------------------------------

namespace Layout

/- Indent every line that is not empty by four spaces. -/
def indented
    (lines : List String) : List String :=
  lines.map fun line =>
    if line.isEmpty then line else "    " ++ line

/- Lines in braces that open behind a head. -/
def block
    (head : String)
    (body : List String) : List String :=
  [head ++ " \x7b"] ++ indented body ++ ["\x7d"]

/- Lines in braces that open below a head. -/
def braced
    (head : String)
    (body : List String) : List String :=
  [head, "\x7b"] ++ body ++ ["\x7d"]

/- The text of the lines, each one ended by a line feed. -/
def text
    (lines : List String) : Text :=
  lines.flatMap fun line => line.toList ++ ['\n']

end Layout

------------------------------------------------------------
-- Declarations and Definitions
------------------------------------------------------------

namespace Helper

open Layout

/- The value of a variable, empty if it is unset. -/
def varBody : List String :=
  indented
    ["const char *value = getenv(name);",
     "return value != NULL ? value : \"\";"]

/- The number that a text starts with. -/
def intBody : List String :=
  indented
    ["return strtol(text, NULL, 10);"]

/- Give a variable a number as its value. -/
def setIntBody : List String :=
  indented
    ["char text[32];",
     "snprintf(text, sizeof text, \"%ld\", value);",
     "setenv(name, text, 1);"]

/- Build a text from a format, on the heap. -/
def formatBody : List String :=
  indented
    (["va_list ap;",
      "int len;",
      "char *buf;",
      "",
      "va_start(ap, fmt);",
      "len = vsnprintf(NULL, 0, fmt, ap);",
      "va_end(ap);"] ++
     block "if (len < 0)" ["len = 0;"] ++
     ["buf = malloc((size_t)len + 1);"] ++
     block "if (buf == NULL)" ["perror(\"malloc\");", "exit(1);"] ++
     ["buf[0] = '\\0';",
      "va_start(ap, fmt);",
      "vsnprintf(buf, (size_t)len + 1, fmt, ap);",
      "va_end(ap);",
      "return buf;"])

/- Wait for a process and give its exit status. -/
def waitStatusBody : List String :=
  indented
    (["int status;", ""] ++
     block "while (waitpid(pid, &status, 0) < 0)"
         (block "if (errno != EINTR)" ["return 127;"]) ++
     block "if (WIFEXITED(status))" ["return WEXITSTATUS(status);"] ++
     ["return 127;"])

/- Run a command and give its exit status. -/
def runBody : List String :=
  indented
    (["pid_t pid;",
      "",
      "fflush(NULL);",
      "pid = fork();"] ++
     block "if (pid < 0)" ["return 127;"] ++
     block "if (pid == 0)"
         ["execl(\"/bin/sh\", \"sh\", \"-c\", cmd, (char *)NULL);",
          "_exit(127);"] ++
     ["return sh_wait_status(pid);"])

/- Run a command and give what it prints. -/
def captureBody : List String :=
  indented
    (["int fds[2];",
      "pid_t pid;",
      "size_t len = 0;",
      "size_t cap = 256;",
      "char *buf = malloc(cap);",
      ""] ++
     block "if (buf == NULL)" ["perror(\"malloc\");", "exit(1);"] ++
     ["buf[0] = '\\0';"] ++
     block "if (pipe(fds) != 0)" ["last_status = 127;", "return buf;"] ++
     ["fflush(NULL);", "pid = fork();"] ++
     block "if (pid < 0)"
         ["close(fds[0]);",
          "close(fds[1]);",
          "last_status = 127;",
          "return buf;"] ++
     block "if (pid == 0)"
         (["close(fds[0]);"] ++
          block "if (fds[1] != STDOUT_FILENO)"
              ["dup2(fds[1], STDOUT_FILENO);", "close(fds[1]);"] ++
          ["execl(\"/bin/sh\", \"sh\", \"-c\", cmd, (char *)NULL);",
           "_exit(127);"]) ++
     ["close(fds[1]);"] ++
     block "for (;;)"
         (["ssize_t got;"] ++
          block "if (len + 1 >= cap)"
              (["char *grown = realloc(buf, cap * 2);"] ++
               block "if (grown == NULL)" ["perror(\"realloc\");", "exit(1);"] ++
               ["buf = grown;", "cap *= 2;"]) ++
          ["got = read(fds[0], buf + len, cap - len - 1);"] ++
          block "if (got < 0 && errno == EINTR)" ["continue;"] ++
          block "if (got <= 0)" ["break;"] ++
          ["len += (size_t)got;"]) ++
     ["close(fds[0]);"] ++
     block "while (len > 0 && buf[len - 1] == '\\n')" ["len--;"] ++
     ["buf[len] = '\\0';",
      "last_status = sh_wait_status(pid);",
      "return buf;"])

/- Run commands with pipes between them. -/
def pipelineBody : List String :=
  indented
    (["int *fds = NULL;",
      "pid_t *pids = NULL;",
      "int opened = 0;",
      "int spawned = 0;",
      "int result;",
      "int i;",
      ""] ++
     block "if (n < 1)" ["return -1;"] ++
     ["fds = malloc(sizeof(int) * 2 * (size_t)(n > 1 ? n - 1 : 1));",
      "pids = malloc(sizeof(pid_t) * (size_t)n);"] ++
     block "if (fds == NULL || pids == NULL)" ["goto fail;"] ++
     block "for (i = 0; i < n - 1; i++)"
         (block "if (pipe(fds + 2 * i) != 0)" ["goto fail;"] ++
          ["opened++;"]) ++
     ["fflush(NULL);"] ++
     block "for (i = 0; i < n; i++)"
         (["pid_t pid = fork();"] ++
          block "if (pid < 0)" ["goto fail;"] ++
          block "if (pid == 0)"
              (["int j;"] ++
               block "if (i > 0)" ["dup2(fds[2 * (i - 1)], STDIN_FILENO);"] ++
               block "if (i < n - 1)"
                   ["dup2(fds[2 * i + 1], STDOUT_FILENO);"] ++
               block "for (j = 0; j < 2 * opened; j++)" ["close(fds[j]);"] ++
               ["execl(\"/bin/sh\", \"sh\", \"-c\", cmds[i], (char *)NULL);",
                "_exit(127);"]) ++
          ["pids[spawned++] = pid;"]) ++
     block "for (i = 0; i < 2 * opened; i++)" ["close(fds[i]);"] ++
     block "for (i = 0; i < n; i++)"
         ["statuses[i] = sh_wait_status(pids[i]);"] ++
     ["result = statuses[n - 1];",
      "free(fds);",
      "free(pids);",
      "return result;"]) ++
  ["", "fail:"] ++
  indented
    (block "for (i = 0; i < spawned; i++)"
         ["kill(pids[i], SIGTERM);", "waitpid(pids[i], NULL, 0);"] ++
     block "for (i = 0; i < 2 * opened; i++)" ["close(fds[i]);"] ++
     ["free(fds);",
      "free(pids);",
      "return -1;"])

/- Run a command without waiting for it. -/
def backgroundBody : List String :=
  indented
    (["int fds[2];",
      "pid_t mid;",
      "pid_t job = -1;",
      ""] ++
     block "if (pipe(fds) != 0)" ["return -1;"] ++
     ["fflush(NULL);", "mid = fork();"] ++
     block "if (mid < 0)"
         ["close(fds[0]);",
          "close(fds[1]);",
          "return -1;"] ++
     block "if (mid == 0)"
         (["close(fds[0]);",
           "setsid();",
           "job = fork();"] ++
          block "if (job == 0)"
              ["close(fds[1]);",
               "execl(\"/bin/sh\", \"sh\", \"-c\", cmd, (char *)NULL);",
               "_exit(127);"] ++
          block "if (write(fds[1], &job, sizeof job) != (ssize_t)sizeof job)"
              ["_exit(1);"] ++
          ["_exit(job < 0 ? 1 : 0);"]) ++
     ["close(fds[1]);"] ++
     block "if (read(fds[0], &job, sizeof job) != (ssize_t)sizeof job)"
         ["job = -1;"] ++
     ["close(fds[0]);"] ++
     block "while (waitpid(mid, NULL, 0) < 0 && errno == EINTR)" [] ++
     ["return (int)job;"])

/- Whether a path names anything. -/
def pathExistsBody : List String :=
  indented
    ["struct stat st;", "return stat(path, &st) == 0;"]

/- Whether a path names a file. -/
def isFileBody : List String :=
  indented
    ["struct stat st;",
     "return stat(path, &st) == 0 && S_ISREG(st.st_mode);"]

/- Whether a path names a directory. -/
def isDirBody : List String :=
  indented
    ["struct stat st;",
     "return stat(path, &st) == 0 && S_ISDIR(st.st_mode);"]

/- The head of the function. -/
def head : Helper → String
  | .var =>
      "static const char *sh_var(const char *name)"
  | .int =>
      "static long sh_int(const char *text)"
  | .setInt =>
      "static void sh_set_int(const char *name, long value)"
  | .format =>
      "static char *sh_format(const char *fmt, ...)"
  | .waitStatus =>
      "static int sh_wait_status(pid_t pid)"
  | .run =>
      "static int sh_run(const char *cmd)"
  | .capture =>
      "static char *sh_capture(const char *cmd)"
  | .pipeline =>
      "static int sh_pipeline(const char *const *cmds, int n, int *statuses)"
  | .background =>
      "static int sh_background(const char *cmd)"
  | .pathExists =>
      "static int sh_path_exists(const char *path)"
  | .isFile =>
      "static int sh_is_file(const char *path)"
  | .isDir =>
      "static int sh_is_dir(const char *path)"

/- The indented lines of the function. -/
def body : Helper → List String
  | .var => varBody
  | .int => intBody
  | .setInt => setIntBody
  | .format => formatBody
  | .waitStatus => waitStatusBody
  | .run => runBody
  | .capture => captureBody
  | .pipeline => pipelineBody
  | .background => backgroundBody
  | .pathExists => pathExistsBody
  | .isFile => isFileBody
  | .isDir => isDirBody

/- The text that declares a helper. -/
def declaration
    (helper : Helper) : Text :=
  helper.head ++ ";"

/- The text that defines a helper. -/
def definition
    (helper : Helper) : Text :=
  Layout.text (braced helper.head helper.body)

end Helper

------------------------------------------------------------
-- Preamble
------------------------------------------------------------

namespace Program

/-
  The lines that every program starts with: what it includes
  and the status of its last command and background job.
-/
def preambleLines : List String :=
  ["#define _POSIX_C_SOURCE 200809L",
   "#include <errno.h>",
   "#include <signal.h>",
   "#include <stdarg.h>",
   "#include <stdio.h>",
   "#include <stdlib.h>",
   "#include <string.h>",
   "#include <sys/stat.h>",
   "#include <sys/types.h>",
   "#include <sys/wait.h>",
   "#include <unistd.h>",
   "",
   "int last_status = 0;",
   "int last_bg_pid = 0;"]

/- The text that every program starts with. -/
def preamble : Text :=
  Layout.text preambleLines

end Program

end ShellToC
